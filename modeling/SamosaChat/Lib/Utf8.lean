import SamosaChat.Lib.Iterate
import Mathlib.Algebra.Ring.Int.Defs
import Mathlib.Algebra.Ring.Nat
import Mathlib.Data.List.Basic

set_option autoImplicit false

namespace SamosaChat.Utf8

abbrev Bytes := List UInt8

instance : LawfulBEq Bytes := inferInstance

-- What holds of each byte of a text is decided along the text, not over all bytes there are.
instance (priority := 2000) decidableText {p : UInt8 → Prop} [DecidablePred p] (text : List UInt8) :
    Decidable (∀ c ∈ text, p c) :=
  List.decidableBAll p text

def Scalar (code : Nat) : Prop :=
  code < 0xd800 ∨ 0xe000 ≤ code ∧ code < 0x110000

instance (code : Nat) : Decidable (Scalar code) := by
  unfold Scalar
  infer_instance

def sequence (code : Nat) : Bytes :=
  if code < 0x80 then [.ofNat code]
  else if code < 0x800 then [.ofNat (0xc0 + code / 64), .ofNat (0x80 + code % 64)]
  else if code < 0x10000 then
    [.ofNat (0xe0 + code / 4096), .ofNat (0x80 + code / 64 % 64), .ofNat (0x80 + code % 64)]
  else
    [.ofNat (0xf0 + code / 262144), .ofNat (0x80 + code / 4096 % 64), .ofNat (0x80 + code / 64 % 64), .ofNat (0x80 + code % 64)]

def encode (codes : List Nat) : Bytes :=
  codes.flatMap sequence

def Valid (bytes : Bytes) : Prop :=
  ∃ codes, (∀ code ∈ codes, Scalar code) ∧ encode codes = bytes

def isTail (byte : UInt8) : Bool :=
  0x80 ≤ byte.toNat && byte.toNat < 0xc0

def decodeTwo (a : UInt8) : Bytes → Option (Nat × Nat)
  | b :: _ =>
    if isTail b then some ((a.toNat - 0xc0) * 64 + (b.toNat - 0x80), 2) else none
  | _ => none

def decodeThree (a : UInt8) : Bytes → Option (Nat × Nat)
  | b :: c :: _ =>
    let code := (a.toNat - 0xe0) * 4096 + (b.toNat - 0x80) * 64 + (c.toNat - 0x80)
    if (isTail b ∧ isTail c) ∧ 0x800 ≤ code ∧ Scalar code then some (code, 3) else none
  | _ => none

def decodeFour (a : UInt8) : Bytes → Option (Nat × Nat)
  | b :: c :: d :: _ =>
    let code := (a.toNat - 0xf0) * 262144 + (b.toNat - 0x80) * 4096 + (c.toNat - 0x80) * 64 + (d.toNat - 0x80)
    if (isTail b ∧ isTail c ∧ isTail d) ∧ 0x10000 ≤ code ∧ Scalar code then some (code, 4) else none
  | _ => none

def decodeOne : Bytes → Option (Nat × Nat)
  | [] => none
  | a :: rest =>
    if a.toNat < 0x80 then some (a.toNat, 1)
    else if a.toNat < 0xc2 then none
    else if a.toNat < 0xe0 then decodeTwo a rest
    else if a.toNat < 0xf0 then decodeThree a rest
    else if a.toNat < 0xf5 then decodeFour a rest
    else none

theorem is_tail_iff (byte : UInt8) : isTail byte = true ↔ 0x80 ≤ byte.toNat ∧ byte.toNat < 0xc0 := by
  simp [isTail]

theorem of_nat_eq {byte : UInt8} {n : Nat} (same : byte.toNat = n) : UInt8.ofNat n = byte := by
  subst same
  exact UInt8.ofNat_toNat

theorem to_nat_of_nat {n : Nat} (small : n < 256) : (UInt8.ofNat n).toNat = n :=
  UInt8.toNat_ofNat_of_lt' small

theorem sequence_ne_nil (code : Nat) : sequence code ≠ [] := by
  unfold sequence
  split_ifs <;> simp

theorem sequence_short (code : Nat) : (sequence code).length ≤ 4 := by
  unfold sequence
  split_ifs <;> simp

variable {a : UInt8}

theorem sequence_one (small : a.toNat < 0x80) : sequence a.toNat = [a] := by
  unfold sequence
  rw [if_pos small, UInt8.ofNat_toNat]

variable {code : Nat}

theorem sequence_wide (scalar : Scalar code) (high : 0x80 ≤ code) {byte : UInt8}
    (inside : byte ∈ sequence code) : 0x80 ≤ byte.toNat := by
  have of_nat : ∀ {n : Nat}, 0x80 ≤ n → n < 256 → byte = .ofNat n → 0x80 ≤ byte.toNat := by
    rintro n large small rfl
    rw [to_nat_of_nat small]
    exact large
  unfold Scalar at scalar
  unfold sequence at inside
  split_ifs at inside with one two three
  · omega
  · simp only [List.mem_cons, List.not_mem_nil, or_false] at inside
    exact inside.elim (of_nat (by omega) (by omega)) (of_nat (by omega) (by omega))
  · simp only [List.mem_cons, List.not_mem_nil, or_false] at inside
    rcases inside with first | second | third
    · exact of_nat (by omega) (by omega) first
    · exact of_nat (by omega) (by omega) second
    · exact of_nat (by omega) (by omega) third
  · simp only [List.mem_cons, List.not_mem_nil, or_false] at inside
    rcases inside with first | second | third | fourth
    · exact of_nat (by omega) (by omega) first
    · exact of_nat (by omega) (by omega) second
    · exact of_nat (by omega) (by omega) third
    · exact of_nat (by omega) (by omega) fourth

variable {b : UInt8} {bytes rest : Bytes}

theorem sequence_two (first : 0xc2 ≤ a.toNat ∧ a.toNat < 0xe0)
    (second : 0x80 ≤ b.toNat ∧ b.toNat < 0xc0) (same : code = (a.toNat - 0xc0) * 64 + (b.toNat - 0x80)) :
    sequence code = [a, b] := by
  unfold sequence
  rw [if_neg (by omega), if_pos (by omega), @of_nat_eq a _ (by omega), @of_nat_eq b _ (by omega)]

theorem sequence_three {c : UInt8} (first : 0xe0 ≤ a.toNat ∧ a.toNat < 0xf0)
    (second : 0x80 ≤ b.toNat ∧ b.toNat < 0xc0) (third : 0x80 ≤ c.toNat ∧ c.toNat < 0xc0)
    (same : code = (a.toNat - 0xe0) * 4096 + (b.toNat - 0x80) * 64 + (c.toNat - 0x80)) (wide : 0x800 ≤ code) :
    sequence code = [a, b, c] := by
  unfold sequence
  rw [if_neg (by omega), if_neg (by omega), if_pos (by omega), @of_nat_eq a _ (by omega),
    @of_nat_eq b _ (by omega), @of_nat_eq c _ (by omega)]

theorem sequence_four {c d : UInt8} (first : 0xf0 ≤ a.toNat ∧ a.toNat < 0xf5)
    (second : 0x80 ≤ b.toNat ∧ b.toNat < 0xc0) (third : 0x80 ≤ c.toNat ∧ c.toNat < 0xc0) (fourth : 0x80 ≤ d.toNat ∧ d.toNat < 0xc0)
    (same : code = (a.toNat - 0xf0) * 262144 + (b.toNat - 0x80) * 4096 + (c.toNat - 0x80) * 64 + (d.toNat - 0x80))
    (wide : 0x10000 ≤ code) : sequence code = [a, b, c, d] := by
  unfold sequence
  rw [if_neg (by omega), if_neg (by omega), if_neg (by omega), @of_nat_eq a _ (by omega),
    @of_nat_eq b _ (by omega), @of_nat_eq c _ (by omega), @of_nat_eq d _ (by omega)]

def Starts (bytes : Bytes) (code width : Nat) : Prop :=
  Scalar code ∧ width = (sequence code).length ∧ sequence code <+: bytes

variable {width : Nat}

theorem starts_of {shape : Bytes} (scalar : Scalar code) (same : sequence code = shape)
    (size : width = shape.length) (front : shape <+: bytes) : Starts bytes code width :=
  ⟨scalar, by rw [same, size], by rw [same]; exact front⟩

theorem decode_two_starts (first : 0xc2 ≤ a.toNat ∧ a.toNat < 0xe0) (decoded : decodeTwo a rest = some (code, width)) :
    Starts (a :: rest) code width := by
  unfold decodeTwo at decoded
  split at decoded
  · rename_i b rest
    obtain ⟨follows, decoded⟩ := within_guard decoded nofun
    obtain ⟨rfl, rfl⟩ := Prod.mk.inj (Option.some.inj decoded)
    have bound := (is_tail_iff b).mp follows
    exact starts_of (by unfold Scalar; omega) (sequence_two first bound rfl) rfl ⟨rest, rfl⟩
  · cases decoded

theorem decode_three_starts (first : 0xe0 ≤ a.toNat ∧ a.toNat < 0xf0) (decoded : decodeThree a rest = some (code, width)) :
    Starts (a :: rest) code width := by
  unfold decodeThree at decoded
  split at decoded
  · rename_i b c rest
    dsimp only at decoded
    split at decoded
    · rename_i follows
      obtain ⟨rfl, rfl⟩ := Prod.mk.inj (Option.some.inj decoded)
      obtain ⟨⟨second, third⟩, wide, scalar⟩ := follows
      exact starts_of scalar
        (sequence_three first ((is_tail_iff b).mp second) ((is_tail_iff c).mp third) rfl wide) rfl ⟨rest, rfl⟩
    · cases decoded
  · cases decoded

theorem decode_four_starts (first : 0xf0 ≤ a.toNat ∧ a.toNat < 0xf5) (decoded : decodeFour a rest = some (code, width)) :
    Starts (a :: rest) code width := by
  unfold decodeFour at decoded
  split at decoded
  · rename_i b c d rest
    dsimp only at decoded
    split at decoded
    · rename_i follows
      obtain ⟨rfl, rfl⟩ := Prod.mk.inj (Option.some.inj decoded)
      obtain ⟨⟨second, third, fourth⟩, wide, scalar⟩ := follows
      exact starts_of scalar
        (sequence_four first ((is_tail_iff b).mp second) ((is_tail_iff c).mp third) ((is_tail_iff d).mp fourth) rfl wide)
        rfl ⟨rest, rfl⟩
    · cases decoded
  · cases decoded

theorem decode_one_starts (decoded : decodeOne bytes = some (code, width)) : Starts bytes code width := by
  cases bytes with
  | nil => cases decoded
  | cons a rest =>
    rw [decodeOne] at decoded
    by_cases one : a.toNat < 0x80
    · rw [if_pos one] at decoded
      cases decoded
      exact starts_of (by unfold Scalar; omega) (sequence_one one) rfl ⟨rest, rfl⟩
    rw [if_neg one] at decoded
    obtain ⟨bad, decoded⟩ := past_guard decoded nofun
    by_cases two : a.toNat < 0xe0
    · rw [if_pos two] at decoded
      exact decode_two_starts ⟨by omega, two⟩ decoded
    rw [if_neg two] at decoded
    by_cases three : a.toNat < 0xf0
    · rw [if_pos three] at decoded
      exact decode_three_starts ⟨by omega, three⟩ decoded
    rw [if_neg three] at decoded
    obtain ⟨four, decoded⟩ := within_guard decoded nofun
    exact decode_four_starts ⟨by omega, four⟩ decoded

theorem decode_one_sequence (scalar : Scalar code) (rest : Bytes) :
    decodeOne (sequence code ++ rest) = some (code, (sequence code).length) := by
  unfold Scalar at scalar
  unfold sequence
  by_cases one : code < 0x80
  · rw [if_pos one]
    simp [decodeOne, to_nat_of_nat (n := code) (by omega), one]
  rw [if_neg one]
  by_cases two : code < 0x800
  · rw [if_pos two]
    have first := to_nat_of_nat (n := 0xc0 + code / 64) (by omega)
    have second := to_nat_of_nat (n := 0x80 + code % 64) (by omega)
    simp only [List.cons_append, List.nil_append, decodeOne, decodeTwo, is_tail_iff, first, second, List.length_cons,
      List.length_nil]
    rw [if_neg (by omega), if_neg (by omega), if_pos (by omega), if_pos (by omega)]
    simp only [Option.some.injEq, Prod.mk.injEq, and_true]
    omega
  rw [if_neg two]
  by_cases three : code < 0x10000
  · rw [if_pos three]
    have first := to_nat_of_nat (n := 0xe0 + code / 4096) (by omega)
    have second := to_nat_of_nat (n := 0x80 + code / 64 % 64) (by omega)
    have third := to_nat_of_nat (n := 0x80 + code % 64) (by omega)
    simp only [List.cons_append, List.nil_append, decodeOne, decodeThree, is_tail_iff, first, second, third,
      List.length_cons, List.length_nil, Scalar]
    rw [if_neg (by omega), if_neg (by omega), if_neg (by omega), if_pos (by omega), if_pos (by omega)]
    simp only [Option.some.injEq, Prod.mk.injEq, and_true]
    omega
  · rw [if_neg three]
    have first := to_nat_of_nat (n := 0xf0 + code / 262144) (by omega)
    have second := to_nat_of_nat (n := 0x80 + code / 4096 % 64) (by omega)
    have third := to_nat_of_nat (n := 0x80 + code / 64 % 64) (by omega)
    have fourth := to_nat_of_nat (n := 0x80 + code % 64) (by omega)
    simp only [List.cons_append, List.nil_append, decodeOne, decodeFour, is_tail_iff, first, second, third, fourth,
      List.length_cons, List.length_nil, Scalar]
    rw [if_neg (by omega), if_neg (by omega), if_neg (by omega), if_neg (by omega), if_pos (by omega), if_pos (by omega)]
    simp only [Option.some.injEq, Prod.mk.injEq, and_true]
    omega

theorem decode_one_iff : decodeOne bytes = some (code, width) ↔ Starts bytes code width := by
  constructor
  · exact decode_one_starts
  · rintro ⟨scalar, size, rest, rfl⟩
    rw [decode_one_sequence scalar, size]

theorem encode_cons (code : Nat) (codes : List Nat) : encode (code :: codes) = sequence code ++ encode codes :=
  List.flatMap_cons

theorem encode_append (first second : List Nat) : encode (first ++ second) = encode first ++ encode second :=
  List.flatMap_append

theorem valid_nil : Valid [] :=
  ⟨[], by simp, rfl⟩

theorem valid_append {first second : Bytes} (left : Valid first) (right : Valid second) : Valid (first ++ second) := by
  obtain ⟨codes, scalars, rfl⟩ := left
  obtain ⟨codes', scalars', rfl⟩ := right
  refine ⟨codes ++ codes', fun code inside => ?_, encode_append codes codes'⟩
  exact (List.mem_append.mp inside).elim (scalars code) (scalars' code)

theorem valid_sequence (scalar : Scalar code) : Valid (sequence code) :=
  ⟨[code], by simpa using scalar, by simp [encode]⟩

theorem valid_step (valid : Valid bytes) (some_ : bytes ≠ []) :
    ∃ code width, decodeOne bytes = some (code, width) ∧ Valid (bytes.drop width) := by
  obtain ⟨codes, scalars, rfl⟩ := valid
  cases codes with
  | nil => exact absurd rfl some_
  | cons code codes =>
    rw [encode_cons]
    refine ⟨code, (sequence code).length, decode_one_sequence (scalars code (by simp)) _, ?_⟩
    rw [List.drop_left]
    exact ⟨codes, fun c inside => scalars c (List.mem_cons_of_mem _ inside), rfl⟩

theorem valid_of_step (decoded : decodeOne bytes = some (code, width)) (rest : Valid (bytes.drop width)) : Valid bytes := by
  obtain ⟨scalar, size, after, rfl⟩ := decode_one_iff.mp decoded
  rw [size, List.drop_left] at rest
  exact valid_append (valid_sequence scalar) rest

theorem decode_one_width {code width : Nat} (decoded : decodeOne bytes = some (code, width)) :
    0 < width ∧ width ≤ bytes.length := by
  obtain ⟨_, size, rest, rfl⟩ := decode_one_iff.mp decoded
  have some_ := List.length_pos_iff.mpr (sequence_ne_nil code)
  rw [size, List.length_append]
  omega

theorem decode_one_ascii (small : a.toNat < 0x80) : decodeOne (a :: rest) = some (a.toNat, 1) := by
  rw [decodeOne, if_pos small]

theorem ascii_valid {text : Bytes} (ascii : ∀ c ∈ text, c.toNat < 0x80) : Valid text := by
  induction text with
  | nil => exact valid_nil
  | cons c rest ih =>
    refine valid_of_step (decode_one_ascii (ascii c List.mem_cons_self)) ?_
    rw [List.drop_one, List.tail_cons]
    exact ih fun d inside => ascii d (List.mem_cons_of_mem _ inside)

end SamosaChat.Utf8
