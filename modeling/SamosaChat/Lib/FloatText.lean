import SamosaChat.Lib.Binary64
import SamosaChat.Lib.Decimal
import SamosaChat.Lib.Utf8Scan
import Mathlib.Data.List.DropRight

set_option autoImplicit false

namespace SamosaChat.FloatText

open Utf8 Text Decimal Binary64

def isHex (c : UInt8) : Bool :=
  isDigit c || 0x61 ≤ toLower c && toLower c ≤ 0x66

def hexValue (c : UInt8) : Nat :=
  if isDigit c then c.toNat - 0x30 else (toLower c).toNat - 0x57

def hexDigitsValue (digits : Bytes) : Nat :=
  digits.foldl (fun value c => 16 * value + hexValue c) 0

structure Mantissa where
  digits : Bytes
  fraction : Nat
  rest : Bytes

def mantissa (digit : UInt8 → Bool) (text : Bytes) : Mantissa :=
  let whole := text.takeWhile digit
  match text.dropWhile digit with
  | [] => { digits := whole, fraction := 0, rest := [] }
  | c :: after =>
    if c = 0x2e then
      let fraction := after.takeWhile digit
      { digits := whole ++ fraction, fraction := fraction.length, rest := after.dropWhile digit }
    else { digits := whole, fraction := 0, rest := c :: after }

def exponent (mark : UInt8) (text : Bytes) : Int × Bytes :=
  match text with
  | [] => (0, [])
  | c :: after =>
    if toLower c = mark then
      let signed := after.head? == some 0x2d || after.head? == some 0x2b
      let body := if signed then after.drop 1 else after
      let digits := body.takeWhile isDigit
      if digits = [] then (0, text)
      else
        (if after.head? == some 0x2d then -(digitsValue digits : Int) else digitsValue digits, body.dropWhile isDigit)
    else (0, text)

def scanDecimal (negative : Bool) (text : Bytes) : Option (Double × Bytes) :=
  let m := mantissa isDigit text
  if m.digits = [] then none
  else
    let e := exponent 0x65 m.rest
    some (ofScaled negative 10 (digitsValue m.digits) (e.1 - m.fraction), e.2)

def scanHex (negative : Bool) (text : Bytes) : Option (Double × Bytes) :=
  let m := mantissa isHex text
  if m.digits = [] then none
  else
    let e := exponent 0x70 m.rest
    some (ofScaled negative 2 (hexDigitsValue m.digits) (e.1 - 4 * m.fraction), e.2)

def afterNan (text : Bytes) : Bytes :=
  match text with
  | 0x28 :: inner =>
    match inner.dropWhile (fun c => isAlnum c || c == 0x5f) with
    | 0x29 :: after => after
    | _ => text
  | _ => text

def scanNumber (negative : Bool) (text : Bytes) : Option (Double × Bytes) :=
  let lower := text.map toLower
  if (utf8 "infinity").isPrefixOf lower then some (.inf negative, text.drop 8)
  else if (utf8 "inf").isPrefixOf lower then some (.inf negative, text.drop 3)
  else if (utf8 "nan").isPrefixOf lower then some (.nan, afterNan (text.drop 3))
  else if (utf8 "0x").isPrefixOf lower then (scanHex negative (text.drop 2)).or (scanDecimal negative text)
  else scanDecimal negative text

-- The number at the front of a C string and what follows it. Without one nothing is consumed.
def strtod (text : Bytes) : Double × Bytes :=
  let body := text.dropWhile isSpace
  let signed := body.head? == some 0x2d || body.head? == some 0x2b
  (scanNumber (body.head? == some 0x2d) (if signed then body.drop 1 else body)).getD (Binary64.zero, text)

theorem drop_while_length (p : UInt8 → Bool) (text : Bytes) : (text.dropWhile p).length ≤ text.length :=
  (List.dropWhile_suffix p).length_le

theorem mantissa_length (digit : UInt8 → Bool) (text : Bytes) : (mantissa digit text).rest.length ≤ text.length := by
  have most := drop_while_length digit text
  unfold mantissa
  cases shape : text.dropWhile digit with
  | nil => exact Nat.zero_le _
  | cons c after =>
    rw [shape] at most
    by_cases point : c = 0x2e
    · have more := drop_while_length digit after
      rw [List.length_cons] at most
      simp only [if_pos point]
      omega
    · simp only [if_neg point]
      exact most

theorem exponent_length (mark : UInt8) (text : Bytes) : (exponent mark text).2.length ≤ text.length := by
  cases text with
  | nil => exact Nat.le_refl _
  | cons c after =>
    have most : ∀ body : Bytes, body.length ≤ after.length →
        (body.dropWhile isDigit).length ≤ (c :: after).length := fun body short =>
      (drop_while_length isDigit body).trans (short.trans (Nat.le_succ _))
    simp only [exponent]
    split_ifs
    all_goals first | exact Nat.le_refl _ | exact most _ (by simp)

theorem after_nan_length (text : Bytes) : (afterNan text).length ≤ text.length := by
  unfold afterNan
  split
  · rename_i inner
    have most := drop_while_length (fun c => isAlnum c || c == 0x5f) inner
    split
    · rename_i after shape
      rw [shape, List.length_cons] at most
      rw [List.length_cons]
      omega
    · exact Nat.le_refl _
  · exact Nat.le_refl _

variable {negative : Bool} {rest tail text : Bytes} {units : Nat} {value : Double}

theorem scan_decimal_length (scan : scanDecimal negative text = some (value, rest)) : rest.length ≤ text.length := by
  unfold scanDecimal at scan
  dsimp only at scan
  split at scan
  · cases scan
  · obtain ⟨rfl, rfl⟩ := Prod.mk.inj (Option.some.inj scan)
    exact (exponent_length 0x65 _).trans (mantissa_length isDigit text)

theorem scan_hex_length (scan : scanHex negative text = some (value, rest)) : rest.length ≤ text.length := by
  unfold scanHex at scan
  dsimp only at scan
  split at scan
  · cases scan
  · obtain ⟨rfl, rfl⟩ := Prod.mk.inj (Option.some.inj scan)
    exact (exponent_length 0x70 _).trans (mantissa_length isHex text)

theorem scan_number_length (scan : scanNumber negative text = some (value, rest)) : rest.length ≤ text.length := by
  unfold scanNumber at scan
  dsimp only at scan
  split at scan
  · obtain ⟨_, rfl⟩ := Prod.mk.inj (Option.some.inj scan)
    simp
  split at scan
  · obtain ⟨_, rfl⟩ := Prod.mk.inj (Option.some.inj scan)
    simp
  split at scan
  · obtain ⟨_, rfl⟩ := Prod.mk.inj (Option.some.inj scan)
    exact (after_nan_length _).trans (by simp)
  split at scan
  · rcases Option.or_eq_some_iff.mp scan with hex | ⟨_, plain⟩
    · exact (scan_hex_length hex).trans (by simp)
    · exact scan_decimal_length plain
  · exact scan_decimal_length scan

theorem strtod_length (text : Bytes) : (strtod text).2.length ≤ text.length := by
  have most := drop_while_length isSpace text
  unfold strtod
  dsimp only
  generalize text.dropWhile isSpace = body at *
  cases scan : scanNumber (body.head? == some 0x2d)
      (if (body.head? == some 0x2d || body.head? == some 0x2b) = true then body.drop 1 else body) with
  | none => exact Nat.le_refl _
  | some pair =>
    refine (scan_number_length scan).trans (Nat.le_trans ?_ most)
    split <;> simp

def leading (units : Nat) : Int :=
  Nat.log 10 (units * 10 ^ 400 / one) - 400

def carry (n : Nat) (x : Int) : Nat × Int :=
  if n = 10 ^ 17 then (10 ^ 16, x + 1) else (n, x)

def scaled (units : Nat) (x : Int) : Nat :=
  if x ≤ 16 then nearest (units * 10 ^ (16 - x).toNat) one else nearest units (one * 10 ^ (x - 16).toNat)

def seventeen (units : Nat) : Nat × Int :=
  carry (scaled units (leading units)) (leading units)

def zeros (k : Nat) : Bytes :=
  List.replicate k 0x30

def strip (digits : Bytes) : Bytes :=
  digits.rdropWhile (· == 0x30)

def pointed (k : Nat) (digits : Bytes) : Bytes :=
  if digits.length ≤ k then digits ++ zeros (k - digits.length) else digits.take k ++ 0x2e :: digits.drop k

def formatExponent (x : Int) : Bytes :=
  0x65 :: (if x < 0 then 0x2d else 0x2b) ::
    (if x.natAbs < 10 then 0x30 :: decimal x.natAbs else decimal x.natAbs)

def formatDigits (digits : Bytes) (x : Int) : Bytes :=
  if x < -4 ∨ 17 ≤ x then pointed 1 digits ++ formatExponent x
  else if x < 0 then 0x30 :: 0x2e :: zeros (-x - 1).toNat ++ digits
  else pointed (x + 1).toNat digits

def formatMagnitude (units : Nat) : Bytes :=
  if units = 0 then [0x30] else formatDigits (strip (decimal (seventeen units).1)) (seventeen units).2

-- snprintf with "%.17g".
def format : Double → Bytes
  | .nan => utf8 "nan"
  | .inf negative => if negative then utf8 "-inf" else utf8 "inf"
  | .finite negative magnitude =>
    if negative then 0x2d :: formatMagnitude magnitude.units else formatMagnitude magnitude.units

def Exact (units : Nat) : Prop :=
  units = 0 ∨ Denotes (seventeen units).1 ((seventeen units).2 - 16) units

def ExactlyPrintable : Double → Prop
  | .finite _ magnitude => Exact magnitude.units
  | _ => False

theorem one_pos : 0 < one := by
  unfold one
  positivity

variable {n : Nat}

theorem natural_integer (small : n ≤ 2 ^ 53) : natural (integer false n small) = some n := by
  rw [integer, natural, if_pos ⟨Nat.mul_mod_left n one, .inl rfl⟩]
  exact congrArg some (Nat.mul_div_cancel n one_pos)

theorem one_small : one < 10 ^ 400 := by
  decide +kernel

theorem nearest_bounds {a b low high : Nat} (above : low * b ≤ a) (below : a < high * b) :
    low ≤ nearest a b ∧ nearest a b ≤ high := by
  have some_ : 0 < b := by
    rcases Nat.eq_zero_or_pos b with none_ | some_
    · subst none_
      omega
    · exact some_
  have under := (Nat.le_div_iff_mul_le some_).mpr above
  have over_ := (Nat.div_lt_iff_lt_mul some_).mpr below
  unfold nearest
  split <;> omega

theorem leading_bounds (some_ : units ≠ 0) :
    ∃ k : Nat, leading units = k - 400 ∧ 10 ^ k * one ≤ units * 10 ^ 400 ∧ units * 10 ^ 400 < 10 ^ (k + 1) * one := by
  have scaled : units * 10 ^ 400 / one ≠ 0 := by
    refine (Nat.div_pos ?_ one_pos).ne'
    calc one ≤ 10 ^ 400 := one_small.le
      _ ≤ units * 10 ^ 400 := Nat.le_mul_of_pos_left _ (Nat.pos_of_ne_zero some_)
  refine ⟨Nat.log 10 (units * 10 ^ 400 / one), rfl, ?_, ?_⟩
  · exact (Nat.le_div_iff_mul_le one_pos).mp (Nat.pow_log_le_self 10 scaled)
  · exact (Nat.div_lt_iff_lt_mul one_pos).mp (Nat.lt_pow_succ_log_self (by omega) _)

variable {k : Nat}

theorem scale_down (fits : k ≤ 416) (low : 10 ^ k * one ≤ units * 10 ^ 400) (high : units * 10 ^ 400 < 10 ^ (k + 1) * one) :
    10 ^ 16 * one ≤ units * 10 ^ (416 - k) ∧ units * 10 ^ (416 - k) < 10 ^ 17 * one := by
  have whole : (10 : Nat) ^ (416 - k) * 10 ^ k = 10 ^ 16 * 10 ^ 400 := by
    rw [← Nat.pow_add, ← Nat.pow_add]
    congr 1
    omega
  have positive : 0 < (10 : Nat) ^ (416 - k) := by positivity
  constructor
  · refine Nat.le_of_mul_le_mul_right (c := 10 ^ 400) ?_ (by positivity)
    calc 10 ^ 16 * one * 10 ^ 400 = 10 ^ (416 - k) * (10 ^ k * one) := by
          rw [← mul_assoc, whole, Nat.mul_right_comm]
      _ ≤ 10 ^ (416 - k) * (units * 10 ^ 400) := Nat.mul_le_mul_left _ low
      _ = units * 10 ^ (416 - k) * 10 ^ 400 := by rw [← mul_assoc, Nat.mul_comm _ units]
  · refine Nat.lt_of_mul_lt_mul_right (a := 10 ^ 400) ?_
    calc units * 10 ^ (416 - k) * 10 ^ 400 = 10 ^ (416 - k) * (units * 10 ^ 400) := by
          rw [← mul_assoc, Nat.mul_comm _ units]
      _ < 10 ^ (416 - k) * (10 ^ (k + 1) * one) := Nat.mul_lt_mul_of_pos_left high positive
      _ = 10 ^ 17 * one * 10 ^ 400 := by
          rw [Nat.pow_succ, ← mul_assoc, ← mul_assoc, whole, Nat.pow_succ 10 16]
          generalize (10 : Nat) ^ 400 = a
          generalize (10 : Nat) ^ 16 = b
          ring

theorem scale_up (large : 416 < k) (low : 10 ^ k * one ≤ units * 10 ^ 400) (high : units * 10 ^ 400 < 10 ^ (k + 1) * one) :
    10 ^ 16 * (one * 10 ^ (k - 416)) ≤ units ∧ units < 10 ^ 17 * (one * 10 ^ (k - 416)) := by
  obtain ⟨j, rfl⟩ := Nat.exists_eq_add_of_le large.le
  have whole : (10 : Nat) ^ (416 + j) = 10 ^ 16 * 10 ^ j * 10 ^ 400 := by
    rw [← Nat.pow_add, ← Nat.pow_add]
    congr 1
    omega
  rw [Nat.add_sub_cancel_left]
  constructor
  · refine Nat.le_of_mul_le_mul_right (c := 10 ^ 400) ?_ (by positivity)
    calc 10 ^ 16 * (one * 10 ^ j) * 10 ^ 400 = 10 ^ (416 + j) * one := by
          rw [whole]
          generalize (10 : Nat) ^ 400 = a
          generalize (10 : Nat) ^ 16 = b
          ring
      _ ≤ units * 10 ^ 400 := low
  · refine Nat.lt_of_mul_lt_mul_right (a := 10 ^ 400) ?_
    calc units * 10 ^ 400 < 10 ^ (416 + j + 1) * one := high
      _ = 10 ^ 17 * (one * 10 ^ j) * 10 ^ 400 := by
          rw [Nat.pow_succ, whole, Nat.pow_succ 10 16]
          generalize (10 : Nat) ^ 400 = a
          generalize (10 : Nat) ^ 16 = b
          ring

theorem carry_bounds (x : Int) (bound : 10 ^ 16 ≤ n ∧ n ≤ 10 ^ 17) : 10 ^ 16 ≤ (carry n x).1 ∧ (carry n x).1 < 10 ^ 17 := by
  have less : (10 : Nat) ^ 16 < 10 ^ 17 := Nat.pow_lt_pow_right (by omega) (by omega)
  unfold carry
  by_cases top : n = 10 ^ 17
  · rw [if_pos top]
    exact ⟨Nat.le_refl _, less⟩
  · rw [if_neg top]
    exact ⟨bound.1, Nat.lt_of_le_of_ne bound.2 top⟩

theorem scaled_bounds (some_ : units ≠ 0) : 10 ^ 16 ≤ scaled units (leading units) ∧ scaled units (leading units) ≤ 10 ^ 17 := by
  have down_ : ∀ k : Nat, k ≤ 416 → (k : Int) - 400 ≤ 16 ∧ (16 - ((k : Int) - 400)).toNat = 416 - k := by omega
  have up : ∀ k : Nat, 416 < k → ¬(k : Int) - 400 ≤ 16 ∧ ((k : Int) - 400 - 16).toNat = k - 416 := by omega
  obtain ⟨k, at_, low, high⟩ := leading_bounds some_
  rw [at_, scaled]
  by_cases down : k ≤ 416
  · obtain ⟨small, power⟩ := down_ k down
    have inside := scale_down down low high
    rw [if_pos small, power]
    exact nearest_bounds inside.1 inside.2
  · obtain ⟨large, power⟩ := up k (Nat.lt_of_not_le down)
    have inside := scale_up (Nat.lt_of_not_le down) low high
    rw [if_neg large, power]
    exact nearest_bounds inside.1 inside.2

theorem seventeen_digits (some_ : units ≠ 0) : 10 ^ 16 ≤ (seventeen units).1 ∧ (seventeen units).1 < 10 ^ 17 :=
  carry_bounds (leading units) (scaled_bounds some_)

variable {c : UInt8}

theorem zeros_digits (inside : c ∈ zeros k) : isDigit c = true := by
  rw [List.eq_of_mem_replicate inside]
  rfl

theorem strip_zeros (digits : Bytes) : ∃ k, digits = strip digits ++ zeros k := by
  induction digits using List.reverseRecOn with
  | nil => exact ⟨0, rfl⟩
  | append_singleton digits c ih =>
    unfold strip at ih ⊢
    by_cases zero_ : (c == 0x30) = true
    · obtain ⟨k, same⟩ := ih
      refine ⟨k + 1, ?_⟩
      rw [List.rdropWhile_concat_pos (p := (· == 0x30)) _ _ zero_, zeros, List.replicate_succ', ← List.append_assoc]
      rw [beq_iff_eq.mp zero_]
      exact congrArg (· ++ [0x30]) same
    · exact ⟨0, by rw [List.rdropWhile_concat_neg (p := (· == 0x30)) _ _ zero_]; simp [zeros]⟩

theorem digits_value_zeros (digits : Bytes) (k : Nat) : digitsValue (digits ++ zeros k) = digitsValue digits * 10 ^ k := by
  induction k with
  | zero => simp [zeros]
  | succ k ih =>
    have last : zeros (k + 1) = zeros k ++ [0x30] := List.replicate_succ'
    rw [last, ← List.append_assoc, digitsValue, List.foldl_append, ← digitsValue, ih]
    simp only [List.foldl_cons, List.foldl_nil]
    have none_ : (0x30 : UInt8).toNat - 0x30 = 0 := rfl
    rw [none_, Nat.pow_succ]
    ring

theorem zeros_digits_value (k : Nat) (digits : Bytes) : digitsValue (zeros k ++ digits) = digitsValue digits := by
  induction k with
  | zero => rfl
  | succ k ih =>
    rw [zeros, List.replicate_succ, ← zeros, List.cons_append]
    exact ih

variable {magnitude : Magnitude} {x : Int}

theorem rounds_strip (low : 10 ^ 16 ≤ n) (high : n < 10 ^ 17) (rounds : Rounds n (x - 16) magnitude) :
    Rounds (digitsValue (strip (decimal n))) (x + 1 - (strip (decimal n)).length) magnitude := by
  obtain ⟨k, same⟩ := strip_zeros (decimal n)
  have size : (decimal n).length = 17 := by
    have most := decimal_length (n := n) (k := 17) (by omega) high
    have least : ¬(decimal n).length ≤ 16 := by
      rw [decimal, List.length_map, Nat.length_toDigits_le_iff (by omega) (by omega)]
      omega
    omega
  have value : n = digitsValue (strip (decimal n)) * 10 ^ k := by
    rw [← digits_value_zeros, ← same, digits_value_decimal]
  have count : (strip (decimal n)).length + k = 17 := by
    rw [← size]
    conv_rhs => rw [same]
    simp [zeros]
  rw [value, rounds_shift] at rounds
  have shift : x - 16 + (k : Int) = x + 1 - (strip (decimal n)).length := by omega
  rwa [shift] at rounds

def Stop (rest : Bytes) : Prop :=
  ∀ c ∈ rest.head?, isDigit c = false ∧ c ≠ 0x2e ∧ toLower c ≠ 0x65 ∧ toLower c ≠ 0x78

variable {digits : Bytes}

theorem mantissa_whole (all : ∀ c ∈ digits, isDigit c = true) (stop : ∀ c ∈ rest.head?, isDigit c = false ∧ c ≠ 0x2e) :
    mantissa isDigit (digits ++ rest) = { digits := digits, fraction := 0, rest := rest } := by
  obtain ⟨taken, left⟩ := digits_end all fun c inside => (stop c inside).1
  unfold mantissa
  rw [taken, left]
  cases rest with
  | nil => rfl
  | cons c after => simp only [if_neg (stop c rfl).2]

theorem mantissa_fraction {whole fraction rest : Bytes} (all : ∀ c ∈ whole, isDigit c = true)
    (all' : ∀ c ∈ fraction, isDigit c = true) (stop : ∀ c ∈ rest.head?, isDigit c = false) :
    mantissa isDigit (whole ++ 0x2e :: fraction ++ rest) =
      { digits := whole ++ fraction, fraction := fraction.length, rest := rest } := by
  have point : ∀ c ∈ (0x2e :: (fraction ++ rest)).head?, isDigit c = false := by
    intro c first
    cases first
    rfl
  obtain ⟨taken, left⟩ := digits_end all point
  obtain ⟨taken', left'⟩ := digits_end all' stop
  unfold mantissa
  rw [List.append_assoc, List.cons_append, taken, left]
  simp only [if_true, taken', left']

theorem exponent_absent (stop : Stop rest) : exponent 0x65 rest = (0, rest) := by
  cases rest with
  | nil => rfl
  | cons c after => rw [exponent, if_neg (stop c rfl).2.2.1]

theorem digits_value_leading (n : Nat) : digitsValue (if n < 10 then 0x30 :: decimal n else decimal n) = n := by
  split_ifs
  · exact (zeros_digits_value 1 (decimal n)).trans (digits_value_decimal n)
  · exact digits_value_decimal n

theorem exponent_format (stop : Stop rest) : exponent 0x65 (formatExponent x ++ rest) = (x, rest) := by
  generalize same : (if x.natAbs < 10 then 0x30 :: decimal x.natAbs else decimal x.natAbs) = digits
  have value : digitsValue digits = x.natAbs := by
    rw [← same]
    exact digits_value_leading x.natAbs
  have all : ∀ c ∈ digits, isDigit c = true := by
    intro c inside
    rw [← same] at inside
    split_ifs at inside
    · exact (List.mem_cons.mp inside).elim (fun zero_ => by rw [zero_]; rfl) decimal_digits
    · exact decimal_digits inside
  have some_ : digits ≠ [] := by
    rw [← same]
    split_ifs
    · simp
    · exact decimal_ne_nil _
  obtain ⟨taken, left⟩ := digits_end all fun c inside => (stop c inside).1
  have mark : toLower 0x65 = 0x65 := rfl
  unfold formatExponent
  rw [same]
  by_cases below : x < 0
  · simp only [if_pos below, exponent, List.cons_append, mark, if_true, List.head?_cons, beq_self_eq_true,
      Bool.true_or, List.drop_succ_cons, List.drop_zero, taken, left, if_neg some_, value]
    congr 1
    omega
  · have plus : ((some 0x2b : Option UInt8) == some 0x2d) = false := rfl
    simp only [if_neg below, exponent, List.cons_append, mark, if_true, List.head?_cons, beq_self_eq_true, plus,
      Bool.false_or, List.drop_succ_cons, List.drop_zero, taken, left, if_neg some_, value, Bool.false_eq_true, if_false]
    congr 1
    omega

structure Reads (text : Bytes) (magnitude : Magnitude) (rest : Bytes) : Prop where
  first : ∀ c ∈ text.head?, isDigit c = true
  second : ∀ c ∈ (text.drop 1).head?, toLower c ≠ 0x78
  some_ : (mantissa isDigit text).digits ≠ []
  after : (exponent 0x65 (mantissa isDigit text).rest).2 = rest
  value : Rounds (digitsValue (mantissa isDigit text).digits)
    ((exponent 0x65 (mantissa isDigit text).rest).1 - (mantissa isDigit text).fraction) magnitude

theorem scan_plain (negative : Bool) (digit : isDigit c = true)
    (second : ∀ d ∈ text.head?, toLower d ≠ 0x78) : scanNumber negative (c :: text) = scanDecimal negative (c :: text) := by
  have range := (is_digit_iff c).mp digit
  have lower : toLower c = c := by
    have small : isUpper c = false := by
      simp only [isUpper, Bool.and_eq_false_imp, decide_eq_true_eq, decide_eq_false_iff_not, UInt8.le_iff_toNat_le]
      intro large
      have : (0x41 : UInt8).toNat = 65 := rfl
      omega
    rw [toLower, small, if_neg (by simp)]
  have other : ∀ d : UInt8, 0x39 < d.toNat → (d == c) = false := by
    intro d large
    refine beq_eq_false_iff_ne.mpr ?_
    rintro rfl
    omega
  have infinity : utf8 "infinity" = 0x69 :: utf8 "nfinity" := by decide
  have inf : utf8 "inf" = 0x69 :: utf8 "nf" := by decide
  have nan : utf8 "nan" = 0x6e :: utf8 "an" := by decide
  have hex : utf8 "0x" = [0x30, 0x78] := by decide
  simp only [scanNumber, List.map_cons, lower, infinity, inf, nan, hex, List.isPrefixOf,
    other 0x69 (by decide), other 0x6e (by decide), Bool.false_and, Bool.false_eq_true, if_false]
  cases text with
  | nil => simp
  | cons d text =>
    have cross : (0x78 == toLower d) = false := beq_eq_false_iff_ne.mpr (Ne.symm (second d rfl))
    simp only [List.map_cons, List.isPrefixOf, cross, Bool.false_and, Bool.and_false, Bool.false_eq_true, if_false]

theorem scan_reads (negative : Bool) (reads : Reads text magnitude rest) :
    scanNumber negative text = some (.finite negative magnitude, rest) := by
  obtain ⟨first, second, some_, after, value⟩ := reads
  cases text with
  | nil => exact absurd rfl some_
  | cons c text =>
    have plain : scanNumber negative (c :: text) = _ := scan_plain negative (first c rfl) second
    rw [plain, scanDecimal]
    simp only
    rw [if_neg some_, after, value negative]

theorem strtod_signed (negative : Bool) (digit : isDigit c = true) (scan : scanNumber negative (c :: text) = some (value, rest)) :
    strtod (if negative then 0x2d :: c :: text else c :: text) = (value, rest) := by
  cases negative with
  | true =>
    have space : isSpace 0x2d = false := by decide
    simp only [strtod, if_true, List.dropWhile_cons, space, Bool.false_eq_true, if_false, List.head?_cons,
      beq_self_eq_true, Bool.true_or, List.drop_succ_cons, List.drop_zero, scan, Option.getD_some]
  | false =>
    obtain ⟨space, minus, plus⟩ := digit_not_space digit
    have minus' : (some c == some 0x2d) = false := by simpa using minus
    have plus' : (some c == some 0x2b) = false := by simpa using plus
    simp only [strtod, Bool.false_eq_true, if_false, List.dropWhile_cons, space, List.head?_cons, minus', plus',
      Bool.or_self, scan, Option.getD_some]

theorem strtod_reads (negative : Bool) (reads : Reads text magnitude rest) :
    strtod ((if negative then 0x2d :: text else text)) = (.finite negative magnitude, rest) := by
  have scan := scan_reads negative reads
  cases text with
  | nil => exact absurd rfl reads.some_
  | cons c text => exact strtod_signed negative (reads.first c rfl) scan

theorem pointed_bytes (all : ∀ c ∈ digits, isDigit c = true) (inside : c ∈ pointed k digits) : isDigit c = true ∨ c = 0x2e := by
  unfold pointed at inside
  split_ifs at inside
  · exact .inl ((List.mem_append.mp inside).elim (all c) zeros_digits)
  · rcases List.mem_append.mp inside with early | late
    · exact .inl (all c (List.mem_of_mem_take early))
    · exact (List.mem_cons.mp late).elim .inr fun last => .inl (all c (List.mem_of_mem_drop last))

theorem pointed_first (some_ : 0 < k) (all : ∀ c ∈ digits, isDigit c = true) :
    ∃ c rest, pointed k digits = c :: rest ∧ isDigit c = true := by
  obtain ⟨k, rfl⟩ := Nat.exists_eq_add_of_lt some_
  rw [Nat.zero_add]
  cases digits with
  | nil => exact ⟨0x30, zeros k, rfl, rfl⟩
  | cons c digits =>
    unfold pointed
    split_ifs
    · exact ⟨c, _, rfl, all c (by simp)⟩
    · exact ⟨c, _, rfl, all c (by simp)⟩

theorem mantissa_pointed (all : ∀ c ∈ digits, isDigit c = true) (stop : ∀ c ∈ tail.head?, isDigit c = false ∧ c ≠ 0x2e) :
    (mantissa isDigit (pointed k digits ++ tail)).rest = tail ∧
      ∀ (e : Int) (magnitude : Magnitude), Rounds (digitsValue digits) (e + k - digits.length) magnitude →
        Rounds (digitsValue (mantissa isDigit (pointed k digits ++ tail)).digits)
          (e - (mantissa isDigit (pointed k digits ++ tail)).fraction) magnitude := by
  unfold pointed
  split_ifs with short
  · have all' : ∀ c ∈ digits ++ zeros (k - digits.length), isDigit c = true :=
      fun c inside => (List.mem_append.mp inside).elim (all c) zeros_digits
    rw [mantissa_whole all' stop]
    refine ⟨rfl, fun e magnitude rounds => ?_⟩
    have shift : e - ((0 : Nat) : Int) + (k - digits.length : Nat) = e + k - digits.length := by omega
    rw [digits_value_zeros, rounds_shift, shift]
    exact rounds
  · have front : ∀ c ∈ digits.take k, isDigit c = true := fun c inside => all c (List.mem_of_mem_take inside)
    have back : ∀ c ∈ digits.drop k, isDigit c = true := fun c inside => all c (List.mem_of_mem_drop inside)
    rw [mantissa_fraction front back fun c inside => (stop c inside).1]
    refine ⟨rfl, fun e magnitude rounds => ?_⟩
    have size : (digits.drop k).length = digits.length - k := List.length_drop
    have shift : e - ((digits.drop k).length : Int) = e + k - digits.length := by omega
    simp only [List.take_append_drop, shift]
    exact rounds

theorem second_plain {body : Bytes} (some_ : body ≠ []) (all : ∀ c ∈ body, isDigit c = true ∨ c = 0x2e)
    (stop : ∀ c ∈ tail.head?, toLower c ≠ 0x78) : ∀ c ∈ ((body ++ tail).drop 1).head?, toLower c ≠ 0x78 := by
  have plain : ∀ c : UInt8, isDigit c = true ∨ c = 0x2e → toLower c ≠ 0x78 := every_byte (by decide +kernel)
  intro c inside
  match body with
  | [] => exact absurd rfl some_
  | [_] => exact stop c inside
  | _ :: d :: _ =>
    cases inside
    exact plain c (all c (by simp))

theorem reads_pointed {k : Nat} {digits tail rest : Bytes} {e : Int} {magnitude : Magnitude} (some_ : 0 < k)
    (all : ∀ c ∈ digits, isDigit c = true)
    (stop : ∀ c ∈ tail.head?, isDigit c = false ∧ c ≠ 0x2e ∧ toLower c ≠ 0x78) (power : exponent 0x65 tail = (e, rest))
    (rounds : Rounds (digitsValue digits) (e + k - digits.length) magnitude) :
    Reads (pointed k digits ++ tail) magnitude rest := by
  obtain ⟨first, after, shape, digit⟩ := pointed_first some_ all
  obtain ⟨left, value⟩ := mantissa_pointed (k := k) all fun c inside => ⟨(stop c inside).1, (stop c inside).2.1⟩
  constructor
  · intro c inside
    rw [shape] at inside
    cases inside
    exact digit
  · refine second_plain ?_ (fun c inside => pointed_bytes all inside) fun c inside => (stop c inside).2.2
    rw [shape]
    simp
  · rw [shape, List.cons_append, mantissa, List.takeWhile_cons, digit]
    intro none_
    split at none_
    · simp at none_
    · split at none_ <;> simp at none_
  · rw [left, power]
  · rw [left, power]
    exact value e magnitude rounds

theorem stop_end (stop : Stop rest) : ∀ c ∈ rest.head?, isDigit c = false ∧ c ≠ 0x2e ∧ toLower c ≠ 0x78 :=
  fun c inside => ⟨(stop c inside).1, (stop c inside).2.1, (stop c inside).2.2.2⟩

theorem reads_fraction (all : ∀ c ∈ digits, isDigit c = true)
    (stop : Stop rest) (rounds : Rounds (digitsValue digits) (-(k + digits.length : Int)) magnitude) :
    Reads (0x30 :: 0x2e :: zeros k ++ digits ++ rest) magnitude rest := by
  have shape : (0x30 : UInt8) :: 0x2e :: zeros k ++ digits = [0x30] ++ 0x2e :: (zeros k ++ digits) := rfl
  have all' : ∀ c ∈ zeros k ++ digits, isDigit c = true :=
    fun c inside => (List.mem_append.mp inside).elim zeros_digits (all c)
  have read := @mantissa_fraction [0x30] _ rest (by decide) all' fun c inside => (stop c inside).1
  have plain : ∀ c ∈ [0x30] ++ 0x2e :: (zeros k ++ digits), isDigit c = true ∨ c = 0x2e := by
    intro c inside
    rcases List.mem_append.mp inside with zero_ | point
    · exact .inl (by rw [List.mem_singleton.mp zero_]; rfl)
    · exact (List.mem_cons.mp point).elim .inr fun later => .inl (all' c later)
  rw [shape]
  constructor
  · intro c inside
    cases inside
    rfl
  · exact second_plain (by simp) plain fun c inside => (stop_end stop c inside).2.2
  · rw [read]
    simp
  · rw [read, exponent_absent stop]
  · rw [read, exponent_absent stop]
    have value : digitsValue ([0x30] ++ (zeros k ++ digits)) = digitsValue digits :=
      (zeros_digits_value 1 (zeros k ++ digits)).trans (zeros_digits_value k digits)
    have count : (0 : Int) - ((zeros k ++ digits).length : Int) = -(k + digits.length : Int) := by
      simp only [zeros, List.length_append, List.length_replicate]
      omega
    simp only [value, count]
    exact rounds

theorem format_digits_reads (all : ∀ c ∈ digits, isDigit c = true)
    (stop : Stop rest) (rounds : Rounds (digitsValue digits) (x + 1 - digits.length) magnitude) :
    Reads (formatDigits digits x ++ rest) magnitude rest := by
  unfold formatDigits
  split_ifs with scientific below
  · rw [List.append_assoc]
    have stop' : ∀ c ∈ (formatExponent x ++ rest).head?, isDigit c = false ∧ c ≠ 0x2e ∧ toLower c ≠ 0x78 := by
      intro c inside
      cases inside
      decide
    exact reads_pointed (by omega) all stop' (exponent_format stop) rounds
  · refine reads_fraction all stop ?_
    have shift : -(((-x - 1).toNat : Nat) + digits.length : Int) = x + 1 - digits.length := by omega
    rw [shift]
    exact rounds
  · have width : (0 : Int) + ((x + 1).toNat : Nat) - digits.length = x + 1 - digits.length := by omega
    exact reads_pointed (by omega) all (stop_end stop) (exponent_absent stop) (by rw [width]; exact rounds)

theorem reads_zero (stop : Stop rest) : Reads ([0x30] ++ rest) .zero rest := by
  have zero_ : Rounds (digitsValue []) (0 + (1 : Nat) - ([] : Bytes).length) .zero := by
    have none_ : digitsValue [] = 0 := rfl
    apply denotes_rounds
    rw [Denotes, none_, Nat.cast_zero, zero_mul, zero_mul, Magnitude.zero, Nat.cast_zero]
  exact @reads_pointed _ [] _ _ _ _ (by omega) (by simp) (stop_end stop) (exponent_absent stop) zero_

theorem strip_digits (inside : c ∈ strip (decimal n)) : isDigit c = true := by
  obtain ⟨k, same⟩ := strip_zeros (decimal n)
  refine decimal_digits (n := n) ?_
  rw [same]
  exact List.mem_append_left _ inside

theorem reads_digits (low : 10 ^ 16 ≤ n) (high : n < 10 ^ 17) (rounds : Rounds n (x - 16) magnitude) (stop : Stop rest) :
    Reads (formatDigits (strip (decimal n)) x ++ rest) magnitude rest :=
  format_digits_reads (fun _ => strip_digits) stop (rounds_strip low high rounds)

theorem format_reads {magnitude : Magnitude} {rest : Bytes}
    (rounds : magnitude.units ≠ 0 → Rounds (seventeen magnitude.units).1 ((seventeen magnitude.units).2 - 16) magnitude)
    (stop : Stop rest) : Reads (formatMagnitude magnitude.units ++ rest) magnitude rest := by
  unfold formatMagnitude
  by_cases none_ : magnitude.units = 0
  · have same : magnitude = .zero := by
      obtain ⟨units, fits⟩ := magnitude
      cases none_
      rfl
    rw [if_pos none_, same]
    exact reads_zero stop
  · rw [if_neg none_]
    exact reads_digits (seventeen_digits none_).1 (seventeen_digits none_).2 (rounds none_) stop

theorem log_shift (k : Nat) (some_ : n ≠ 0) : Nat.log 10 (n * 10 ^ k) = Nat.log 10 n + k := by
  refine Nat.log_eq_of_pow_le_of_lt_pow ?_ ?_
  · rw [Nat.pow_add]
    exact Nat.mul_le_mul_right _ (Nat.pow_log_le_self 10 some_)
  · rw [Nat.add_right_comm, Nat.pow_add]
    exact Nat.mul_lt_mul_of_pos_right (Nat.lt_pow_succ_log_self (by omega) n) (by positivity)

theorem leading_integer (some_ : n ≠ 0) : leading (n * one) = Nat.log 10 n := by
  unfold leading
  rw [Nat.mul_right_comm, Nat.mul_div_cancel _ one_pos, log_shift 400 some_]
  push_cast
  ring

theorem seventeen_integer (some_ : n ≠ 0) (small : n < 10 ^ 17) :
    seventeen (n * one) = (n * 10 ^ (16 - Nat.log 10 n), (Nat.log 10 n : Int)) := by
  have log : Nat.log 10 n < 17 := Nat.log_lt_of_lt_pow some_ small
  have whole : scaled (n * one) (Nat.log 10 n : Nat) = n * 10 ^ (16 - Nat.log 10 n) := by
    have power : (16 - ((Nat.log 10 n : Nat) : Int)).toNat = 16 - Nat.log 10 n := by omega
    rw [scaled, if_pos (by omega), power, Nat.mul_right_comm, nearest_exact one_pos (Nat.dvd_mul_left _ _),
      Nat.mul_div_cancel _ one_pos]
  have below : n * 10 ^ (16 - Nat.log 10 n) < 10 ^ 17 := by
    calc n * 10 ^ (16 - Nat.log 10 n) < 10 ^ (Nat.log 10 n + 1) * 10 ^ (16 - Nat.log 10 n) :=
          Nat.mul_lt_mul_of_pos_right (Nat.lt_pow_succ_log_self (by omega) n) (by positivity)
      _ = 10 ^ 17 := by
          rw [← Nat.pow_add]
          congr 1
          omega
  unfold seventeen carry
  rw [leading_integer some_, whole, if_neg (Nat.ne_of_lt below)]

theorem exact_integer (small : n < 10 ^ 17) : Exact (n * one) := by
  by_cases none_ : n = 0
  · exact .inl (by rw [none_, Nat.zero_mul])
  right
  have log : Nat.log 10 n < 17 := Nat.log_lt_of_lt_pow none_ small
  have shift : ((Nat.log 10 n : Nat) : Int) - 16 + (16 - Nat.log 10 n : Nat) = 0 := by omega
  rw [seventeen_integer none_ small, denotes_shift, shift, Denotes, zpow_zero, mul_one, Nat.cast_mul]

theorem integer_printable (negative : Bool) (small : n ≤ 2 ^ 53) : ExactlyPrintable (integer negative n small) :=
  exact_integer (Nat.lt_of_le_of_lt small (by decide))

theorem decimal_zeros (some_ : 0 < n) (k : Nat) : decimal (n * 10 ^ k) = decimal n ++ zeros k := by
  induction k with
  | zero => simp [zeros]
  | succ k ih =>
    have last : zeros (k + 1) = zeros k ++ [0x30] := List.replicate_succ'
    have digits := Nat.toDigits_append_toDigits (b := 10) (n := n * 10 ^ k) (d := 0) (by omega) (by positivity) (by omega)
    have split : n * 10 ^ (k + 1) = 10 * (n * 10 ^ k) + 0 := by ring
    rw [split, last, ← List.append_assoc, ← ih, decimal, ← digits, List.map_append]
    rfl

theorem strip_append_zeros (digits : Bytes) (k : Nat) : strip (digits ++ zeros k) = strip digits := by
  induction k with
  | zero => simp [zeros]
  | succ k ih =>
    have last : zeros (k + 1) = zeros k ++ [0x30] := List.replicate_succ'
    rw [last, ← List.append_assoc, strip, List.rdropWhile_concat_pos (p := (· == 0x30)) _ _ rfl]
    exact ih

theorem decimal_size (some_ : n ≠ 0) : (decimal n).length = Nat.log 10 n + 1 := by
  have most := decimal_length (n := n) (k := Nat.log 10 n + 1) (by omega) (Nat.lt_pow_succ_log_self (by omega) n)
  by_cases one_ : Nat.log 10 n = 0
  · have some' := List.length_pos_of_ne_nil (decimal_ne_nil n)
    omega
  · have least : ¬(decimal n).length ≤ Nat.log 10 n := by
      rw [decimal, List.length_map, Nat.length_toDigits_le_iff (by omega) (by omega)]
      exact Nat.not_lt.mpr (Nat.pow_log_le_self 10 some_)
    omega

theorem format_integer (small : n < 10 ^ 17) : formatMagnitude (n * one) = decimal n := by
  by_cases none_ : n = 0
  · rw [none_, Nat.zero_mul]
    rfl
  · have log : Nat.log 10 n < 17 := Nat.log_lt_of_lt_pow none_ small
    have some_ : n * one ≠ 0 := Nat.mul_ne_zero none_ (Nat.ne_of_gt one_pos)
    obtain ⟨k, same⟩ := strip_zeros (decimal n)
    have size := decimal_size none_
    have width : (strip (decimal n)).length + k = Nat.log 10 n + 1 := by
      rw [← size]
      conv_rhs => rw [same]
      simp [zeros]
    rw [formatMagnitude, if_neg some_, seventeen_integer none_ small]
    simp only
    rw [decimal_zeros (Nat.pos_of_ne_zero none_), strip_append_zeros, formatDigits, if_neg (by omega), if_neg (by omega)]
    have point : (((Nat.log 10 n : Nat) : Int) + 1).toNat = Nat.log 10 n + 1 := by omega
    rw [point, pointed, if_pos (by omega), ← width, Nat.add_sub_cancel_left, ← same]

end SamosaChat.FloatText
