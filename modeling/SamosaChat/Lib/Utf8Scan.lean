import SamosaChat.Lib.Utf8

set_option autoImplicit false

namespace SamosaChat.Utf8

-- How C code finds the width of a sequence: the bits of the first byte, the continuation bytes folded
-- into the code point one after the other, and the range of the code point tested at the end.

def foldTail (code : Nat) : Bytes → Option Nat
  | [] => some code
  | b :: rest =>
    if b &&& 0xc0 != 0x80 then none else foldTail (code <<< 6 ||| (b &&& 0x3f).toNat) rest

def widthFrom (width lead : Nat) (rest : Bytes) : Nat :=
  if width > rest.length then 0
  else
    match foldTail lead ((rest.take width).drop 1) with
    | none => 0
    | some code =>
      if (width == 2 && code < 0x80) || (width == 3 && (code < 0x800 || (0xd800 ≤ code && code ≤ 0xdfff))) ||
          (width == 4 && (code < 0x10000 || code > 0x10ffff)) then 0
      else width

def scanWidth (rest : Bytes) : Nat :=
  match rest with
  | [] => 0
  | c :: _ =>
    if c < 0x80 then 1
    else if c ≥ 0xc2 && c ≤ 0xdf then widthFrom 2 (c &&& 0x1f).toNat rest
    else if c ≥ 0xe0 && c ≤ 0xef then widthFrom 3 (c &&& 0x0f).toNat rest
    else if c ≥ 0xf0 && c ≤ 0xf4 then widthFrom 4 (c &&& 0x07).toNat rest
    else 0

theorem every_byte {p : UInt8 → Prop} (all : ∀ n < 256, p (UInt8.ofNat n)) (b : UInt8) : p b := by
  have this := all b.toNat b.toNat_lt
  rwa [UInt8.ofNat_toNat] at this

theorem tail_bits (b : UInt8) : (b &&& 0xc0 == 0x80) = isTail b := by
  revert b
  exact every_byte (by decide +kernel)

theorem low_bits (b : UInt8) : (b &&& 0x3f).toNat = b.toNat % 64 := by
  rw [UInt8.toNat_and]
  exact Nat.and_two_pow_sub_one_eq_mod _ 6

theorem lead_bits (c : UInt8) :
    (c &&& 0x1f).toNat = c.toNat % 32 ∧ (c &&& 0x0f).toNat = c.toNat % 16 ∧ (c &&& 0x07).toNat = c.toNat % 8 := by
  rw [UInt8.toNat_and, UInt8.toNat_and, UInt8.toNat_and]
  exact ⟨Nat.and_two_pow_sub_one_eq_mod _ 5, Nat.and_two_pow_sub_one_eq_mod _ 4, Nat.and_two_pow_sub_one_eq_mod _ 3⟩

theorem fold_bits {code low : Nat} (small : low < 64) : code <<< 6 ||| low = code * 64 + low := by
  rw [← Nat.shiftLeft_add_eq_or_of_lt (i := 6) small code, Nat.shiftLeft_eq]

theorem fold_tail_cons (code : Nat) (b : UInt8) (rest : Bytes) : foldTail code (b :: rest) =
      if isTail b then foldTail (code * 64 + (b.toNat - 0x80)) rest else none := by
  rw [foldTail]
  by_cases follows : isTail b = true
  · have bits : (b &&& 0xc0 == 0x80) = true := (tail_bits b).trans follows
    have bound := (is_tail_iff b).mp follows
    have low : (b &&& 0x3f).toNat = b.toNat - 0x80 := by
      rw [low_bits]
      omega
    rw [if_pos follows, if_neg (by simpa using bits), fold_bits (by omega), low]
  · have bits : (b &&& 0xc0 == 0x80) = false := (tail_bits b).trans (by simpa using follows)
    rw [if_neg follows, if_pos (by simpa using bits)]

theorem first_range (c : UInt8) :
    (c < 0x80 ↔ c.toNat < 0x80) ∧ ((c ≥ 0xc2 && c ≤ 0xdf) = true ↔ 0xc2 ≤ c.toNat ∧ c.toNat < 0xe0) ∧
      ((c ≥ 0xe0 && c ≤ 0xef) = true ↔ 0xe0 ≤ c.toNat ∧ c.toNat < 0xf0) ∧
      ((c ≥ 0xf0 && c ≤ 0xf4) = true ↔ 0xf0 ≤ c.toNat ∧ c.toNat < 0xf5) := by
  simp only [Bool.and_eq_true, decide_eq_true_eq, ge_iff_le, UInt8.lt_iff_toNat_lt, UInt8.le_iff_toNat_le, UInt8.reduceToNat, true_and]
  omega

theorem decoded_wide {c : UInt8} {rest : Bytes} {code width : Nat} (large : ¬c < 0x80)
    (decoded : decodeOne (c :: rest) = some (code, width)) {byte : UInt8} (inside : byte ∈ (c :: rest).take width) :
    0x80 ≤ byte.toNat := by
  obtain ⟨scalar, size, after, shape⟩ := decode_one_iff.mp decoded
  have high : 0x80 ≤ code := by
    by_contra low
    have one : sequence code = [.ofNat code] := by
      unfold sequence
      rw [if_pos (by omega)]
    rw [one] at shape
    rw [← (List.cons.inj shape).1, (first_range _).1, to_nat_of_nat (by omega)] at large
    omega
  rw [← shape, size, List.take_left] at inside
  exact sequence_wide scalar high inside

theorem width_from_two {c : UInt8} (after : Bytes) (first : 0xc2 ≤ c.toNat ∧ c.toNat < 0xe0) :
    widthFrom 2 (c &&& 0x1f).toNat (c :: after) = ((decodeTwo c after).map (·.2)).getD 0 := by
  have lead : (c &&& 0x1f).toNat = c.toNat - 0xc0 := by
    rw [(lead_bits c).1]
    omega
  rw [lead]
  cases after with
  | nil => rfl
  | cons b rest =>
    simp only [widthFrom, List.length_cons, List.take_succ_cons, List.take_zero, List.drop_succ_cons,
      List.drop_zero, fold_tail_cons, decodeTwo]
    rw [if_neg (by omega)]
    by_cases follows : isTail b = true
    · have bound := (is_tail_iff b).mp follows
      simp only [follows, if_true, foldTail]
      rw [if_neg (by simp; omega)]
      rfl
    · simp [follows]

theorem width_from_three {c : UInt8} (after : Bytes) (first : 0xe0 ≤ c.toNat ∧ c.toNat < 0xf0) :
    widthFrom 3 (c &&& 0x0f).toNat (c :: after) = ((decodeThree c after).map (·.2)).getD 0 := by
  have lead : (c &&& 0x0f).toNat = c.toNat - 0xe0 := by
    rw [(lead_bits c).2.1]
    omega
  rw [lead]
  match after with
  | [] => rfl
  | [b] => rfl
  | b :: d :: rest =>
    simp only [widthFrom, List.length_cons, List.take_succ_cons, List.take_zero, List.drop_succ_cons,
      List.drop_zero, fold_tail_cons, decodeThree]
    rw [if_neg (by omega)]
    by_cases second : isTail b = true
    · by_cases third : isTail d = true
      · have bound := (is_tail_iff b).mp second
        have bound' := (is_tail_iff d).mp third
        simp only [second, third, if_true, foldTail, true_and]
        have same : ((c.toNat - 0xe0) * 64 + (b.toNat - 0x80)) * 64 + (d.toNat - 0x80) =
            (c.toNat - 0xe0) * 4096 + (b.toNat - 0x80) * 64 + (d.toNat - 0x80) := by
          omega
        rw [same]
        generalize size : (c.toNat - 0xe0) * 4096 + (b.toNat - 0x80) * 64 + (d.toNat - 0x80) = code
        have range : code < 0x10000 := by omega
        by_cases fine : 0x800 ≤ code ∧ Scalar code
        · rw [if_pos fine, if_neg]
          · rfl
          · obtain ⟨wide, scalar⟩ := fine
            unfold Scalar at scalar
            simp
            omega
        · rw [if_neg fine, if_pos]
          · rfl
          · unfold Scalar at fine
            simp
            omega
      · simp [second, third]
    · simp [second]

theorem width_from_four {c : UInt8} (after : Bytes) (first : 0xf0 ≤ c.toNat ∧ c.toNat < 0xf5) :
    widthFrom 4 (c &&& 0x07).toNat (c :: after) = ((decodeFour c after).map (·.2)).getD 0 := by
  have lead : (c &&& 0x07).toNat = c.toNat - 0xf0 := by
    rw [(lead_bits c).2.2]
    omega
  rw [lead]
  match after with
  | [] => rfl
  | [b] => rfl
  | [b, d] => rfl
  | b :: d :: e :: rest =>
    simp only [widthFrom, List.length_cons, List.take_succ_cons, List.take_zero, List.drop_succ_cons,
      List.drop_zero, fold_tail_cons, decodeFour]
    rw [if_neg (by omega)]
    by_cases follow : isTail b = true ∧ isTail d = true ∧ isTail e = true
    · obtain ⟨second, third, fourth⟩ := follow
      have bound := (is_tail_iff b).mp second
      have bound' := (is_tail_iff d).mp third
      have bound'' := (is_tail_iff e).mp fourth
      simp only [second, third, fourth, if_true, foldTail, true_and]
      have same : (((c.toNat - 0xf0) * 64 + (b.toNat - 0x80)) * 64 + (d.toNat - 0x80)) * 64 + (e.toNat - 0x80) =
          (c.toNat - 0xf0) * 262144 + (b.toNat - 0x80) * 4096 + (d.toNat - 0x80) * 64 + (e.toNat - 0x80) := by
        omega
      rw [same]
      generalize size : (c.toNat - 0xf0) * 262144 + (b.toNat - 0x80) * 4096 + (d.toNat - 0x80) * 64 +
        (e.toNat - 0x80) = code
      by_cases fine : 0x10000 ≤ code ∧ Scalar code
      · rw [if_pos fine, if_neg]
        · rfl
        · obtain ⟨wide, scalar⟩ := fine
          unfold Scalar at scalar
          simp
          omega
      · rw [if_neg fine, if_pos]
        · rfl
        · unfold Scalar at fine
          simp
          omega
    · by_cases second : isTail b = true
      · by_cases third : isTail d = true
        · have last : isTail e = false := by
            by_contra yes
            exact follow ⟨second, third, by simpa using yes⟩
          simp [second, third, last]
        · simp [second, third]
      · simp [second]

theorem by_first {α : Type} (f : Option (Nat × Nat) → α) {c : UInt8} {after : Bytes} {a b d e n : α}
    (ascii : c.toNat < 0x80 → a = f (some (c.toNat, 1))) (double : 0xc2 ≤ c.toNat ∧ c.toNat < 0xe0 → b = f (decodeTwo c after))
    (triple : 0xe0 ≤ c.toNat ∧ c.toNat < 0xf0 → d = f (decodeThree c after))
    (quadruple : 0xf0 ≤ c.toNat ∧ c.toNat < 0xf5 → e = f (decodeFour c after)) (no : n = f none) :
    (if c < 0x80 then a else if c ≥ 0xc2 && c ≤ 0xdf then b else if c ≥ 0xe0 && c ≤ 0xef then d
      else if c ≥ 0xf0 && c ≤ 0xf4 then e else n) = f (decodeOne (c :: after)) := by
  obtain ⟨one, two, three, four⟩ := first_range c
  rw [decodeOne]
  by_cases small : c.toNat < 0x80
  · rw [if_pos (one.mpr small), if_pos small, ascii small]
  rw [if_neg (fun less => small (one.mp less)), if_neg small]
  by_cases bad : c.toNat < 0xc2
  · rw [if_neg (fun inside => by have := two.mp inside; omega), if_neg (fun inside => by have := three.mp inside; omega),
      if_neg (fun inside => by have := four.mp inside; omega), if_pos bad, no]
  rw [if_neg bad]
  by_cases second : c.toNat < 0xe0
  · rw [if_pos (two.mpr ⟨by omega, second⟩), if_pos second, double ⟨by omega, second⟩]
  rw [if_neg (fun inside => second (two.mp inside).2), if_neg second]
  by_cases third : c.toNat < 0xf0
  · rw [if_pos (three.mpr ⟨by omega, third⟩), if_pos third, triple ⟨by omega, third⟩]
  rw [if_neg (fun inside => third (three.mp inside).2), if_neg third]
  by_cases fourth : c.toNat < 0xf5
  · rw [if_pos (four.mpr ⟨by omega, fourth⟩), if_pos fourth, quadruple ⟨by omega, fourth⟩]
  · rw [if_neg (fun inside => fourth (four.mp inside).2), if_neg fourth, no]

theorem scan_width_eq (rest : Bytes) : scanWidth rest = ((decodeOne rest).map (·.2)).getD 0 := by
  cases rest with
  | nil => rfl
  | cons c after =>
    exact by_first (fun decoded => (decoded.map (·.2)).getD 0) (fun _ => rfl) (width_from_two after)
      (width_from_three after) (width_from_four after) rfl

theorem scan_width_decoded {text : Bytes} {code width : Nat} (decoded : decodeOne text = some (code, width)) :
    scanWidth text = width := by
  rw [scan_width_eq, decoded]
  rfl

end SamosaChat.Utf8
