import SamosaChat.Lib.FloatText

set_option autoImplicit false

namespace SamosaChat.FloatText

open Utf8 Text Decimal Binary64

def nineDigits (n : Nat) : Bytes :=
  zeros (9 - (decimal n).length) ++ decimal n

-- A magnitude in units of 10^-9, rounded.
def nanos (magnitude : Magnitude) : Nat :=
  nearest (magnitude.units * 10 ^ 9) one

def fixedMagnitude (magnitude : Magnitude) : Bytes :=
  decimal (nanos magnitude / 10 ^ 9) ++ 0x2e :: nineDigits (nanos magnitude % 10 ^ 9)

-- snprintf with "%.9f".
def fixedNine : Double → Bytes
  | .nan => utf8 "nan"
  | .inf negative => if negative then utf8 "-inf" else utf8 "inf"
  | .finite negative magnitude => if negative then 0x2d :: fixedMagnitude magnitude else fixedMagnitude magnitude

def throughNine : Double → Double
  | .finite negative magnitude => ofScaled negative 10 (nanos magnitude) (-9)
  | other => other

theorem nine_digits_length {n : Nat} (small : n < 10 ^ 9) : (nineDigits n).length = 9 := by
  have most := decimal_length (by omega : 0 < 9) small
  rw [nineDigits, List.length_append, zeros, List.length_replicate]
  omega

theorem nine_digits_digits {n : Nat} {c : UInt8} (inside : c ∈ nineDigits n) : isDigit c = true := by
  rcases List.mem_append.mp inside with zero_ | digit
  · exact zeros_digits zero_
  · exact decimal_digits digit

theorem digits_value_append (first second : Bytes) :
    digitsValue (first ++ second) = digitsValue first * 10 ^ second.length + digitsValue second := by
  have read : ∀ (digits : Bytes) (start : Nat),
      digits.foldl (fun value c => 10 * value + (c.toNat - 0x30)) start =
        start * 10 ^ digits.length + digits.foldl (fun value c => 10 * value + (c.toNat - 0x30)) 0 := by
    intro digits
    induction digits with
    | nil => simp
    | cons c digits ih =>
      intro start
      rw [List.foldl_cons, List.foldl_cons, ih, ih (10 * 0 + _), List.length_cons, pow_succ]
      ring
  rw [digitsValue, List.foldl_append, read]
  rfl

theorem fixed_value (n : Nat) : digitsValue (decimal (n / 10 ^ 9) ++ nineDigits (n % 10 ^ 9)) = n := by
  have small : n % 10 ^ 9 < 10 ^ 9 := Nat.mod_lt _ (by norm_num)
  rw [digits_value_append, nine_digits_length small, nineDigits, zeros_digits_value, digits_value_decimal, digits_value_decimal]
  omega

theorem digit_not_mark {c : UInt8} (digit : isDigit c = true) : toLower c ≠ 0x78 := by
  have range := (is_digit_iff c).mp digit
  unfold toLower
  split_ifs with upper
  · simp only [isUpper, Bool.and_eq_true, decide_eq_true_eq, UInt8.le_iff_toNat_le] at upper
    have : (0x41 : UInt8).toNat = 65 := rfl
    omega
  · rintro rfl
    have : (0x78 : UInt8).toNat = 120 := rfl
    omega

theorem head_not_mark {digits tail : Bytes} (all : ∀ c ∈ digits, isDigit c = true)
    (stop : ∀ c ∈ tail.head?, toLower c ≠ 0x78) : ∀ d ∈ (digits ++ tail).head?, toLower d ≠ 0x78 := by
  cases digits with
  | nil => exact stop
  | cons c digits =>
    intro d front
    cases front
    exact digit_not_mark (all c (by simp))

theorem digits_plain {whole fraction rest : Bytes} (negative : Bool) (digits : ∀ c ∈ whole, isDigit c = true) (some_ : whole ≠ []) :
    scanNumber negative (whole ++ 0x2e :: fraction ++ rest) = scanDecimal negative (whole ++ 0x2e :: fraction ++ rest) := by
  cases whole with
  | nil => exact absurd rfl some_
  | cons c whole =>
    simp only [List.cons_append, List.append_assoc]
    apply scan_plain negative (digits c (by simp))
    apply head_not_mark fun d inside => digits d (List.mem_cons_of_mem _ inside)
    intro d front
    cases front
    decide

theorem scan_fixed {magnitude : Magnitude} {rest : Bytes} (negative : Bool) (stop : Stop rest) :
    scanNumber negative (fixedMagnitude magnitude ++ rest) = some (throughNine (.finite negative magnitude), rest) := by
  have whole : ∀ c ∈ decimal (nanos magnitude / 10 ^ 9), isDigit c = true := fun c inside => decimal_digits inside
  have fraction : ∀ c ∈ nineDigits (nanos magnitude % 10 ^ 9), isDigit c = true := fun c inside => nine_digits_digits inside
  have size := nine_digits_length (Nat.mod_lt (nanos magnitude) (by norm_num : 0 < 10 ^ 9))
  have read := mantissa_fraction whole fraction fun c front => (stop c front).1
  rw [fixedMagnitude, digits_plain negative whole (decimal_ne_nil _), scanDecimal, read]
  simp only
  rw [exponent_absent stop, if_neg (by simp [decimal_ne_nil]), fixed_value, size, throughNine]
  norm_num

theorem decimal_head (n : Nat) : ∃ c digits, decimal n = c :: digits ∧ isDigit c = true := by
  obtain ⟨c, digits, shape⟩ := List.exists_cons_of_ne_nil (decimal_ne_nil n)
  exact ⟨c, digits, shape, decimal_digits (by rw [shape]; exact List.mem_cons_self)⟩

theorem strtod_fixed {magnitude : Magnitude} {rest : Bytes} (negative : Bool) (stop : Stop rest) :
    strtod (fixedNine (.finite negative magnitude) ++ rest) = (throughNine (.finite negative magnitude), rest) := by
  have scan := @scan_fixed magnitude rest negative stop
  obtain ⟨c, digits, shape, first⟩ := decimal_head (nanos magnitude / 10 ^ 9)
  have text : fixedMagnitude magnitude ++ rest = c :: (digits ++ 0x2e :: nineDigits (nanos magnitude % 10 ^ 9) ++ rest) := by
    rw [fixedMagnitude, shape, List.cons_append, List.cons_append]
  rw [text] at scan
  have read := strtod_signed negative first scan
  cases negative with
  | true =>
    rw [if_pos rfl] at read
    rw [fixedNine, if_pos rfl, List.cons_append, text, read]
  | false =>
    rw [if_neg Bool.false_ne_true] at read
    rw [fixedNine, if_neg Bool.false_ne_true, text, read]

theorem strtod_decimal {n : Nat} {rest : Bytes} (stop : Stop rest) :
    strtod (decimal n ++ rest) = (ofScaled false 10 n 0, rest) := by
  have all : ∀ c ∈ decimal n, isDigit c = true := fun c inside => decimal_digits inside
  have read := mantissa_whole all fun c front => ⟨(stop c front).1, (stop c front).2.1⟩
  obtain ⟨c, digits, shape, first⟩ := decimal_head n
  have plain : scanNumber false (decimal n ++ rest) = scanDecimal false (decimal n ++ rest) := by
    rw [shape] at all ⊢
    apply scan_plain false first
    exact head_not_mark (fun d inside => all d (List.mem_cons_of_mem _ inside)) fun d front => (stop d front).2.2.2
  have scan : scanNumber false (decimal n ++ rest) = some (ofScaled false 10 n 0, rest) := by
    rw [plain, scanDecimal, read]
    simp only
    rw [if_neg (by simp [decimal_ne_nil]), exponent_absent stop, digits_value_decimal]
    simp
  rw [shape] at scan ⊢
  exact strtod_signed false first scan

section Cut

variable {digits fraction : Bytes}

theorem scan_digits (negative : Bool) (all : ∀ c ∈ digits, isDigit c = true) (some_ : digits ≠ []) :
    ∃ num, ∀ rest, Stop rest → scanNumber negative (digits ++ rest) = some (num, rest) := by
  refine ⟨ofScaled negative 10 (digitsValue digits) 0, fun rest stop => ?_⟩
  have read := mantissa_whole all fun c front => ⟨(stop c front).1, (stop c front).2.1⟩
  have plain : scanNumber negative (digits ++ rest) = scanDecimal negative (digits ++ rest) := by
    cases digits with
    | nil => exact absurd rfl some_
    | cons c digits =>
      apply scan_plain negative (all c (by simp))
      exact head_not_mark (fun d inside => all d (List.mem_cons_of_mem _ inside)) fun d front => (stop d front).2.2.2
  rw [plain, scanDecimal, read]
  simp only
  rw [if_neg some_, exponent_absent stop]
  simp

theorem scan_fraction (negative : Bool) (all : ∀ c ∈ digits, isDigit c = true) (some_ : digits ≠ [])
    (behind : ∀ c ∈ fraction, isDigit c = true) :
    ∃ num, ∀ rest, Stop rest → scanNumber negative (digits ++ 0x2e :: fraction ++ rest) = some (num, rest) := by
  refine ⟨ofScaled negative 10 (digitsValue (digits ++ fraction)) (0 - fraction.length), fun rest stop => ?_⟩
  have read := mantissa_fraction all behind fun c front => (stop c front).1
  rw [digits_plain negative all some_, scanDecimal, read]
  simp only
  rw [if_neg (by simp [some_]), exponent_absent stop]

theorem scan_cut (negative : Bool) (magnitude : Magnitude) (n : Nat) :
    ∃ num, ∀ rest, Stop rest → scanNumber negative ((fixedMagnitude magnitude).take (n + 1) ++ rest) = some (num, rest) := by
  have whole : ∀ c ∈ decimal (nanos magnitude / 10 ^ 9), isDigit c = true := fun c inside => decimal_digits inside
  have behind : ∀ c ∈ nineDigits (nanos magnitude % 10 ^ 9), isDigit c = true := fun c inside => nine_digits_digits inside
  have some_ := decimal_ne_nil (nanos magnitude / 10 ^ 9)
  rw [fixedMagnitude]
  generalize decimal (nanos magnitude / 10 ^ 9) = digits at whole some_ ⊢
  by_cases early : n + 1 ≤ digits.length
  · rw [List.take_append_of_le_length early]
    apply scan_digits negative fun c inside => whole c (List.mem_of_mem_take inside)
    cases digits with
    | nil => exact absurd rfl some_
    | cons c digits => simp
  · obtain ⟨k, more⟩ := Nat.exists_eq_add_of_lt (Nat.lt_of_not_le early)
    have cut : (digits ++ 0x2e :: nineDigits (nanos magnitude % 10 ^ 9)).take (n + 1) =
        digits ++ 0x2e :: (nineDigits (nanos magnitude % 10 ^ 9)).take k := by
      rw [more, Nat.add_assoc, List.take_length_add_append, List.take_succ_cons]
    rw [cut]
    exact scan_fraction negative whole some_ fun c inside => behind c (List.mem_of_mem_take inside)

theorem strtod_cut (negative : Bool) (magnitude : Magnitude) (n : Nat) :
    ∃ c t, (fixedNine (.finite negative magnitude)).take (n + 2) = c :: t ∧ (isDigit c = true ∨ c = 0x2d) ∧
      ∃ num, ∀ rest, Stop rest → strtod ((fixedNine (.finite negative magnitude)).take (n + 2) ++ rest) = (num, rest) := by
  have first (k : Nat) : ∃ c t, (fixedMagnitude magnitude).take (k + 1) = c :: t ∧ isDigit c = true := by
    obtain ⟨c, digits, shape, digit⟩ := decimal_head (nanos magnitude / 10 ^ 9)
    exact ⟨c, _, by rw [fixedMagnitude, shape, List.cons_append, List.take_succ_cons], digit⟩
  cases negative with
  | true =>
    obtain ⟨c, t, shape, digit⟩ := first n
    obtain ⟨num, scan⟩ := scan_cut true magnitude n
    have text : (fixedNine (.finite true magnitude)).take (n + 2) = 0x2d :: (c :: t) := by
      rw [fixedNine, if_pos rfl, List.take_succ_cons, shape]
    refine ⟨0x2d, c :: t, text, .inr rfl, num, fun rest stop => ?_⟩
    have read := scan rest stop
    rw [shape, List.cons_append] at read
    have signed := strtod_signed true digit read
    rw [if_pos rfl] at signed
    rw [text, List.cons_append, List.cons_append, signed]
  | false =>
    obtain ⟨c, t, shape, digit⟩ := first (n + 1)
    obtain ⟨num, scan⟩ := scan_cut false magnitude (n + 1)
    have text : (fixedNine (.finite false magnitude)).take (n + 2) = c :: t := by
      rw [fixedNine, if_neg Bool.false_ne_true, shape]
    refine ⟨c, t, text, .inl digit, num, fun rest stop => ?_⟩
    have read := scan rest stop
    rw [shape, List.cons_append] at read
    have signed := strtod_signed false digit read
    rw [if_neg Bool.false_ne_true] at signed
    rw [text, List.cons_append, signed]

end Cut

end SamosaChat.FloatText
