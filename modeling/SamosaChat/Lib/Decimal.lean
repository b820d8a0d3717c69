import SamosaChat.Lib.Text

set_option autoImplicit false

namespace SamosaChat.Decimal

open Utf8 Text

def decimal (n : Nat) : Bytes :=
  (Nat.toDigits 10 n).map fun c => .ofNat c.toNat

def decimalInt (n : Int) : Bytes :=
  if n < 0 then 0x2d :: decimal n.natAbs else decimal n.natAbs

def digitsValue (digits : Bytes) : Nat :=
  digits.foldl (fun value c => 10 * value + (c.toNat - 0x30)) 0

structure Numeral where
  negative : Bool
  digits : Bytes
  rest : Bytes

def numeral (text : Bytes) : Numeral :=
  let text := text.dropWhile isSpace
  let signed := text.head? == some 0x2d || text.head? == some 0x2b
  let digits := if signed then text.drop 1 else text
  { negative := text.head? == some 0x2d, digits := digits.takeWhile isDigit, rest := digits.dropWhile isDigit }

def Numeral.value (numeral : Numeral) : Int :=
  if numeral.negative then -(digitsValue numeral.digits : Int) else digitsValue numeral.digits

theorem is_digit_iff (c : UInt8) : isDigit c = true ↔ 0x30 ≤ c.toNat ∧ c.toNat ≤ 0x39 := by
  simp [isDigit, UInt8.le_iff_toNat_le]

theorem digit_char {c : Char} (digit : c.isDigit = true) :
    isDigit (.ofNat c.toNat) = true ∧ (UInt8.ofNat c.toNat).toNat = c.toNat := by
  have range := Char.isDigit_iff_toNat.mp digit
  have low : '0'.toNat = 48 := rfl
  have high : '9'.toNat = 57 := rfl
  have same := to_nat_of_nat (n := c.toNat) (by omega)
  refine ⟨(is_digit_iff _).mpr ?_, same⟩
  rw [same]
  omega

theorem decimal_digits {n : Nat} {c : UInt8} (inside : c ∈ decimal n) : isDigit c = true := by
  obtain ⟨char, among, rfl⟩ := List.mem_map.mp inside
  exact (digit_char (Nat.isDigit_of_mem_toDigits (by omega) le_rfl among)).1

theorem decimal_ne_nil (n : Nat) : decimal n ≠ [] := by
  simp [decimal]

theorem decimal_length {n k : Nat} (some_ : 0 < k) (small : n < 10 ^ k) : (decimal n).length ≤ k := by
  rw [decimal, List.length_map]
  exact (Nat.length_toDigits_le_iff (by omega) some_).mpr small

theorem digits_value_decimal (n : Nat) : digitsValue (decimal n) = n := by
  have read : ∀ (chars : List Char) (start : Nat), (∀ c ∈ chars, c.isDigit = true) →
      (chars.map fun c => UInt8.ofNat c.toNat).foldl (fun value c => 10 * value + (c.toNat - 0x30)) start =
        Nat.ofDigitChars 10 chars start := by
    intro chars
    induction chars with
    | nil => exact fun start _ => rfl
    | cons c chars ih =>
      intro start digits
      rw [List.map_cons, List.foldl_cons, (digit_char (digits c (by simp))).2,
        ih _ fun d inside => digits d (List.mem_cons_of_mem _ inside)]
      rfl
  rw [digitsValue, decimal, read _ 0 fun c inside => Nat.isDigit_of_mem_toDigits (by omega) le_rfl inside]
  exact Nat.ofDigitChars_ten_toDigits

theorem digits_end {digits rest : Bytes} (all : ∀ c ∈ digits, isDigit c = true) (stop : ∀ c ∈ rest.head?, isDigit c = false) :
    (digits ++ rest).takeWhile isDigit = digits ∧ (digits ++ rest).dropWhile isDigit = rest := by
  induction digits with
  | nil =>
    cases rest with
    | nil => exact ⟨rfl, rfl⟩
    | cons c rest =>
      have no := stop c rfl
      simp [no]
  | cons c digits ih =>
    have yes := all c (by simp)
    obtain ⟨taken, left⟩ := ih fun d inside => all d (List.mem_cons_of_mem _ inside)
    simp [yes, taken, left]

theorem digit_not_space {c : UInt8} (digit : isDigit c = true) : isSpace c = false ∧ c ≠ 0x2d ∧ c ≠ 0x2b := by
  have range := (is_digit_iff c).mp digit
  refine ⟨?_, ?_, ?_⟩
  · simp only [isSpace, Bool.or_eq_false_iff, beq_eq_false_iff_ne, Bool.and_eq_false_imp, decide_eq_true_eq,
      decide_eq_false_iff_not]
    refine ⟨?_, fun _ less => ?_⟩
    · rintro rfl
      exact absurd range (by decide)
    · have := UInt8.le_iff_toNat_le.mp less
      have : (0x0d : UInt8).toNat = 13 := rfl
      omega
  · rintro rfl
    exact absurd range (by decide)
  · rintro rfl
    exact absurd range (by decide)

theorem numeral_digits {digits rest : Bytes} (some_ : digits ≠ []) (all : ∀ c ∈ digits, isDigit c = true)
    (stop : ∀ c ∈ rest.head?, isDigit c = false) :
    numeral (digits ++ rest) = { negative := false, digits := digits, rest := rest } := by
  obtain ⟨taken, left⟩ := digits_end all stop
  obtain ⟨c, more, rfl⟩ := List.exists_cons_of_ne_nil some_
  obtain ⟨space, minus, plus⟩ := digit_not_space (all c List.mem_cons_self)
  simp only [List.cons_append] at taken left ⊢
  simp only [numeral, List.dropWhile_cons, space, Bool.false_eq_true, if_false, List.head?_cons]
  rw [beq_eq_false_iff_ne.mpr (by simpa using minus), beq_eq_false_iff_ne.mpr (by simpa using plus)]
  simp only [Bool.or_false, Bool.false_eq_true, if_false]
  rw [taken, left]

theorem numeral_decimal {n : Nat} {rest : Bytes} (stop : ∀ c ∈ rest.head?, isDigit c = false) :
    numeral (decimal n ++ rest) = { negative := false, digits := decimal n, rest := rest } :=
  numeral_digits (decimal_ne_nil n) (fun _ inside => decimal_digits inside) stop

theorem numeral_decimal_int (n : Int) {rest : Bytes} (stop : ∀ c ∈ rest.head?, isDigit c = false) :
    (numeral (decimalInt n ++ rest)).value = n ∧ (numeral (decimalInt n ++ rest)).rest = rest := by
  unfold decimalInt
  by_cases below : n < 0
  · rw [if_pos below]
    obtain ⟨taken, left⟩ := digits_end (fun c inside => decimal_digits (n := n.natAbs) inside) stop
    have shape : numeral (0x2d :: decimal n.natAbs ++ rest) =
        { negative := true, digits := decimal n.natAbs, rest := rest } := by
      have space : isSpace 0x2d = false := by decide
      simp only [numeral, List.cons_append, List.dropWhile_cons, space, Bool.false_eq_true, if_false, List.head?_cons,
        beq_self_eq_true, Bool.true_or, if_true, List.drop_succ_cons, List.drop_zero, taken, left]
    rw [shape]
    simp only [Numeral.value, if_true, digits_value_decimal, and_true]
    omega
  · rw [if_neg below, numeral_decimal stop]
    simp only [Numeral.value, Bool.false_eq_true, if_false, digits_value_decimal, and_true]
    omega

theorem decimal_int_ne_nil (n : Int) : decimalInt n ≠ [] := by
  unfold decimalInt
  split_ifs
  · simp
  · exact decimal_ne_nil _

theorem decimal_int_bytes {n : Int} {c : UInt8} (inside : c ∈ decimalInt n) : c = 0x2d ∨ isDigit c = true := by
  unfold decimalInt at inside
  split_ifs at inside
  · exact (List.mem_cons.mp inside).imp id decimal_digits
  · exact .inr (decimal_digits inside)

theorem decimal_int_length {n : Int} {k : Nat} (some_ : 0 < k) (small : n.natAbs < 10 ^ k) : (decimalInt n).length ≤ k + 1 := by
  have digits := decimal_length some_ small
  unfold decimalInt
  split_ifs
  · simpa using digits
  · omega

end SamosaChat.Decimal
