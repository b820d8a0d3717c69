import SamosaChat.Html.Extract

set_option autoImplicit false

namespace SamosaChat.Html

open Utf8

theorem utf8_sequence_width_eq (rest : Bytes) : utf8SequenceWidth rest = ((decodeOne rest).map (·.2)).getD 0 :=
  scan_width_eq rest

theorem special_first (c : UInt8) : (c == 0xe0) = decide (c.toNat = 0xe0) ∧ (c == 0xed) = decide (c.toNat = 0xed) ∧
      (c == 0xf0) = decide (c.toNat = 0xf0) ∧ (c == 0xf4) = decide (c.toNat = 0xf4) := by
  simp only [beq_eq_decide, ← UInt8.toNat_inj, UInt8.reduceToNat, and_self]

theorem second_bounds (b : UInt8) :
    decide (b < 0xa0) = decide (b.toNat < 0xa0) ∧ decide (b ≥ 0xa0) = decide (0xa0 ≤ b.toNat) ∧
      decide (b < 0x90) = decide (b.toNat < 0x90) ∧ decide (b ≥ 0x90) = decide (0x90 ≤ b.toNat) := by
  simp only [ge_iff_le, UInt8.lt_iff_toNat_lt, UInt8.le_iff_toNat_le, UInt8.reduceToNat, and_self]

theorem tails_all (bytes : Bytes) : (bytes.all fun b => b &&& 0xc0 == 0x80) = bytes.all isTail := by
  congr 1
  funext b
  exact tail_bits b

theorem continues_iff (c : UInt8) (continuation : Nat) (rest : Bytes) : continues c continuation rest = true ↔
      continuation ≤ rest.length ∧ ¬ (c.toNat = 0xe0 ∧ (rest.headD 0).toNat < 0xa0) ∧
        ¬ (c.toNat = 0xed ∧ 0xa0 ≤ (rest.headD 0).toNat) ∧ ¬ (c.toNat = 0xf0 ∧ (rest.headD 0).toNat < 0x90) ∧
        ¬ (c.toNat = 0xf4 ∧ 0x90 ≤ (rest.headD 0).toNat) ∧ (rest.take continuation).all isTail = true := by
  obtain ⟨e0, ed, f0, f4⟩ := special_first c
  obtain ⟨a0, a0', n0, n0'⟩ := second_bounds (rest.headD 0)
  rw [continues, tails_all, e0, ed, f0, f4, a0, a0', n0, n0']
  by_cases short : continuation > rest.length
  · rw [if_pos short]
    simp
    omega
  rw [if_neg short]
  have enough : continuation ≤ rest.length := by omega
  split_ifs with first second third fourth
  · simp only [Bool.and_eq_true, decide_eq_true_eq] at first
    exact iff_of_false (by simp) fun all => all.2.1 first
  · simp only [Bool.and_eq_true, decide_eq_true_eq] at second
    exact iff_of_false (by simp) fun all => all.2.2.1 second
  · simp only [Bool.and_eq_true, decide_eq_true_eq] at third
    exact iff_of_false (by simp) fun all => all.2.2.2.1 third
  · simp only [Bool.and_eq_true, decide_eq_true_eq] at fourth
    exact iff_of_false (by simp) fun all => all.2.2.2.2.1 fourth
  · simp only [Bool.and_eq_true, decide_eq_true_eq] at first second third fourth
    simp only [enough, first, second, third, fourth, not_false_eq_true, true_and]

variable {c : UInt8}

theorem continues_two (after : Bytes) (first : 0xc2 ≤ c.toNat ∧ c.toNat < 0xe0) :
    continues c 1 after = (decodeTwo c after).isSome := by
  rw [Bool.eq_iff_iff, continues_iff]
  cases after with
  | nil => simp [decodeTwo]
  | cons b rest =>
    simp only [decodeTwo, List.length_cons, List.take_succ_cons, List.take_zero, List.all_cons, List.all_nil, Bool.and_true]
    by_cases follows : isTail b = true
    · simp [follows]
      omega
    · simp [follows]

theorem continues_three (after : Bytes) (first : 0xe0 ≤ c.toNat ∧ c.toNat < 0xf0) :
    continues c 2 after = (decodeThree c after).isSome := by
  rw [Bool.eq_iff_iff, continues_iff]
  match after with
  | [] => simp [decodeThree]
  | [b] => simp [decodeThree]
  | b :: d :: rest =>
    simp only [decodeThree, List.length_cons, List.take_succ_cons, List.take_zero, List.all_cons, List.all_nil,
      Bool.and_true, Bool.and_eq_true, List.headD_cons]
    by_cases follow : isTail b = true ∧ isTail d = true
    · have bound := (is_tail_iff b).mp follow.1
      have bound' := (is_tail_iff d).mp follow.2
      simp only [follow, and_self, and_true, true_and]
      generalize size : (c.toNat - 0xe0) * 4096 + (b.toNat - 0x80) * 64 + (d.toNat - 0x80) = code
      by_cases fine : 0x800 ≤ code ∧ Scalar code
      · rw [if_pos fine]
        unfold Scalar at fine
        simp only [Option.isSome_some, iff_true]
        omega
      · rw [if_neg fine]
        unfold Scalar at fine
        simp only [Option.isSome_none, Bool.false_eq_true, iff_false]
        omega
    · rw [if_neg (fun all => follow all.1)]
      simp [follow]

theorem continues_four (after : Bytes) (first : 0xf0 ≤ c.toNat ∧ c.toNat < 0xf5) :
    continues c 3 after = (decodeFour c after).isSome := by
  rw [Bool.eq_iff_iff, continues_iff]
  match after with
  | [] => simp [decodeFour]
  | [b] => simp [decodeFour]
  | [b, d] => simp [decodeFour]
  | b :: d :: e :: rest =>
    simp only [decodeFour, List.length_cons, List.take_succ_cons, List.take_zero, List.all_cons, List.all_nil,
      Bool.and_true, Bool.and_eq_true, List.headD_cons]
    by_cases follow : isTail b = true ∧ isTail d = true ∧ isTail e = true
    · have bound := (is_tail_iff b).mp follow.1
      have bound' := (is_tail_iff d).mp follow.2.1
      have bound'' := (is_tail_iff e).mp follow.2.2
      simp only [follow, and_self, and_true, true_and]
      generalize size : (c.toNat - 0xf0) * 262144 + (b.toNat - 0x80) * 4096 + (d.toNat - 0x80) * 64 +
        (e.toNat - 0x80) = code
      by_cases fine : 0x10000 ≤ code ∧ Scalar code
      · rw [if_pos fine]
        unfold Scalar at fine
        simp only [Option.isSome_some, iff_true]
        omega
      · rw [if_neg fine]
        unfold Scalar at fine
        simp only [Option.isSome_none, Bool.false_eq_true, iff_false]
        omega
    · rw [if_neg (fun all => follow all.1)]
      simp [follow]

variable {code w width : Nat}

theorem width_of {p : Prop} [Decidable p] {size : Nat}
    (decoded : (if p then some (size, width) else none) = some (code, w)) : w = width := by
  split at decoded
  · exact (Prod.mk.inj (Option.some.inj decoded)).2.symm
  · cases decoded

variable {after data rest : Bytes} {buffer : HtmlBuffer} {grants : Nat → Bool} {α : Type}

theorem decode_two_width (decoded : decodeTwo c after = some (code, w)) : w = 2 := by
  unfold decodeTwo at decoded
  split at decoded
  · exact width_of decoded
  · cases decoded

theorem decode_three_width (decoded : decodeThree c after = some (code, w)) : w = 3 := by
  unfold decodeThree at decoded
  split at decoded
  · exact width_of decoded
  · cases decoded

theorem decode_four_width (decoded : decodeFour c after = some (code, w)) : w = 4 := by
  unfold decodeFour at decoded
  split at decoded
  · exact width_of decoded
  · cases decoded

theorem some_and {decoded : Option (Nat × Nat)} {rest : Bool}
    (wide : ∀ code w, decoded = some (code, w) → w = width) (after : Nat → Bool) (same : after width = rest) :
    (decoded.isSome && rest) = decoded.elim false fun result => after result.2 := by
  cases decoded with
  | none => rfl
  | some result =>
    rw [Option.elim_some, wide result.1 result.2 rfl, same]
    rfl

theorem valid_utf8_step (rounds : Nat) (c : UInt8) (after : Bytes) : validUtf8From (rounds + 1) (c :: after) =
      (decodeOne (c :: after)).elim false fun result => validUtf8From rounds ((c :: after).drop result.2) := by
  let accepts (width : Nat) := validUtf8From rounds ((c :: after).drop width)
  refine by_first (fun decoded => decoded.elim false fun result => accepts result.2) (fun _ => rfl) (fun first => ?_)
    (fun first => ?_) (fun first => ?_) rfl
  · rw [continues_two after first]
    exact some_and (fun _ _ => decode_two_width) accepts rfl
  · rw [continues_three after first]
    exact some_and (fun _ _ => decode_three_width) accepts rfl
  · rw [continues_four after first]
    exact some_and (fun _ _ => decode_four_width) accepts rfl

theorem valid_utf8_from_iff (rounds : Nat) :
    ∀ data : Bytes, data.length ≤ rounds → (validUtf8From rounds data = true ↔ Valid data) := by
  induction rounds with
  | zero =>
    intro data short
    rw [List.length_eq_zero_iff.mp (Nat.le_zero.mp short)]
    simp [validUtf8From, valid_nil]
  | succ rounds ih =>
    intro data short
    cases data with
    | nil => simp [validUtf8From, valid_nil]
    | cons c after =>
      rw [valid_utf8_step]
      cases decoded : decodeOne (c :: after) with
      | none =>
        refine iff_of_false (by simp) fun valid => ?_
        obtain ⟨code, width, found, _⟩ := valid_step valid (by simp)
        cases decoded.symm.trans found
      | some result =>
        obtain ⟨code, width⟩ := result
        have wide := decode_one_width decoded
        have less : ((c :: after).drop width).length ≤ rounds := by
          rw [List.length_drop]
          omega
        rw [Option.elim_some, ih _ less]
        constructor
        · exact valid_of_step decoded
        · intro valid
          obtain ⟨code', width', found, rest⟩ := valid_step valid (by simp)
          cases decoded.symm.trans found
          exact rest

theorem valid_utf8_iff (data : Bytes) : validUtf8 data = true ↔ Valid data :=
  valid_utf8_from_iff data.length data (Nat.le_refl _)

theorem text_valid_iff (data : Bytes) :
    samosaHtmlTextValid data = .ok () ↔ data ≠ [] ∧ Valid data ∧ ∀ c ∈ data, binaryControl c = false := by
  unfold samosaHtmlTextValid
  by_cases invalid : (data.isEmpty || !validUtf8 data) = true
  · rw [if_pos invalid]
    simp only [Bool.or_eq_true, List.isEmpty_iff, Bool.not_eq_true'] at invalid
    refine iff_of_false (by simp) fun all => ?_
    rcases invalid with none | bad
    · exact all.1 none
    · rw [(valid_utf8_iff data).mpr all.2.1] at bad
      cases bad
  · rw [if_neg invalid]
    simp only [Bool.or_eq_true, List.isEmpty_iff, Bool.not_eq_true', not_or, Bool.not_eq_false] at invalid
    by_cases control : data.any binaryControl = true
    · rw [if_pos control]
      obtain ⟨c, inside, bad⟩ := List.any_eq_true.mp control
      refine iff_of_false (by simp) fun all => ?_
      rw [all.2.2 c inside] at bad
      cases bad
    · rw [if_neg control]
      refine iff_of_true rfl ⟨invalid.1, (valid_utf8_iff data).mp invalid.2, fun c inside => ?_⟩
      simpa using fun yes => control (List.any_eq_true.mpr ⟨c, inside, yes⟩)

theorem width_accepted (wide : utf8SequenceWidth rest ≠ 0) :
    utf8SequenceWidth rest ≤ rest.length ∧ validUtf8 (rest.take (utf8SequenceWidth rest)) = true := by
  rw [utf8_sequence_width_eq] at wide ⊢
  cases decoded : decodeOne rest with
  | none =>
    rw [decoded] at wide
    exact absurd rfl wide
  | some result =>
    obtain ⟨code, width⟩ := result
    obtain ⟨scalar, size, after, rfl⟩ := decode_one_iff.mp decoded
    simp only [Option.map_some, Option.getD_some]
    rw [size, List.take_left]
    exact ⟨by simp, (valid_utf8_iff _).mpr (valid_sequence scalar)⟩

theorem accepted_width {n : Nat} (some_ : 0 < n ∧ n ≤ rest.length)
    (accepted : validUtf8 (rest.take n) = true) : utf8SequenceWidth rest ≠ 0 ∧ utf8SequenceWidth rest ≤ n := by
  have nonempty : rest.take n ≠ [] := by
    intro none
    have size := congrArg List.length none
    rw [List.length_take, List.length_nil] at size
    omega
  obtain ⟨code, width, decoded, _⟩ := valid_step ((valid_utf8_iff _).mp accepted) nonempty
  obtain ⟨scalar, size, after, front⟩ := decode_one_iff.mp decoded
  have whole : decodeOne rest = some (code, width) := by
    refine decode_one_iff.mpr ⟨scalar, size, after ++ rest.drop n, ?_⟩
    rw [← List.append_assoc, front, List.take_append_drop]
  have bounds := decode_one_width decoded
  rw [List.length_take] at bounds
  rw [utf8_sequence_width_eq, whole, Option.map_some, Option.getD_some]
  omega

theorem buffer_put_plenty {buffer : HtmlBuffer} {text : Bytes} {grants : Nat → Bool} (plenty : ∀ size, grants size = true)
    (room : buffer.data.length + text.length ≤ buffer.limit) :
    ∃ after, bufferPutn grants buffer text = (true, after) ∧ after.data = buffer.data ++ text ∧
      after.limit = buffer.limit := by
  unfold bufferPutn bufferReserve
  rw [if_neg (by simp; omega)]
  dsimp only
  by_cases enough : buffer.data.length + text.length + 1 ≤ buffer.cap
  · rw [if_pos enough]
    exact ⟨_, rfl, rfl, rfl⟩
  · rw [if_neg enough, if_pos (plenty _)]
    exact ⟨_, rfl, rfl, rfl⟩

theorem buffer_reserve_data (grants : Nat → Bool) (buffer : HtmlBuffer) (extra : Nat) :
    (bufferReserve grants buffer extra).2.data = buffer.data := by
  unfold bufferReserve
  dsimp only
  by_cases over_ : (extra > buffer.limit || buffer.data.length > buffer.limit - extra) = true
  · rw [if_pos over_]
  rw [if_neg over_]
  by_cases enough : buffer.data.length + extra + 1 ≤ buffer.cap
  · rw [if_pos enough]
  rw [if_neg enough]
  by_cases granted : grants (growCap buffer.limit (buffer.data.length + extra + 1) 64
      (if buffer.cap = 0 then 1024 else buffer.cap)) = true
  · rw [if_pos granted]
  · rw [if_neg granted]

theorem buffer_put_ok {after : HtmlBuffer} {text : Bytes}
    (put : bufferPutn grants buffer text = (true, after)) : after.data = buffer.data ++ text := by
  have same := buffer_reserve_data grants buffer text.length
  unfold bufferPutn at put
  split at put
  · cases put
  · rename_i reserved
    cases put
    rw [reserved] at same
    dsimp only at same ⊢
    rw [same]

def repaired : Nat → Bytes → Bytes
  | _, [] => []
  | 0, _ => []
  | rounds + 1, c :: after => (repairOne (c :: after)).1 ++ repaired rounds ((c :: after).drop (repairOne (c :: after)).2)

structure Mended (rest put : Bytes) (width : Nat) : Prop where
  reads : 0 < width ∧ width ≤ rest.length
  size : put.length ≤ 3 * width
  some_ : put ≠ []
  valid : Valid put
  plain : ∀ c ∈ put, binaryControl c = false

theorem replacement_valid : Valid replacement :=
  ⟨[0xfffd], by decide, by decide⟩

theorem sequence_plain (scalar : Scalar code) (inside : c ∈ sequence code)
    (wide : 1 < (sequence code).length) : binaryControl c = false := by
  have big : 0x80 ≤ code := by
    by_contra less
    simp [Utf8.sequence, show code < 0x80 by omega] at wide
  have high : 0x80 ≤ c.toNat := by
    unfold Scalar at scalar
    unfold Utf8.sequence at inside
    split_ifs at inside
    all_goals
      simp only [List.mem_cons, List.not_mem_nil, or_false] at inside
    · omega
    · rcases inside with rfl | rfl <;> rw [to_nat_of_nat (by omega)] <;> omega
    · rcases inside with rfl | rfl | rfl <;> rw [to_nat_of_nat (by omega)] <;> omega
    · rcases inside with rfl | rfl | rfl | rfl <;> rw [to_nat_of_nat (by omega)] <;> omega
  exact every_byte (p := fun c => 0x80 ≤ c.toNat → binaryControl c = false) (by decide +kernel) c high

theorem repair_one_kept (decoded : decodeOne rest = some (code, width))
    (fine : ¬ (width = 1 ∧ binaryControl (rest.headD 0) = true)) : repairOne rest = (rest.take width, width) := by
  have wide := decode_one_width decoded
  have same : utf8SequenceWidth rest = width := by
    rw [utf8_sequence_width_eq, decoded]
    rfl
  unfold repairOne
  dsimp only
  rw [same, if_neg]
  rintro (none | control)
  · omega
  · exact fine control

theorem repair_one_mended (some_ : rest ≠ []) : Mended rest (repairOne rest).1 (repairOne rest).2 := by
  have least : 0 < rest.length := List.length_pos_iff.mpr some_
  have replaced : Mended rest replacement 1 :=
    ⟨⟨by omega, by omega⟩, by decide, by decide, replacement_valid, by decide⟩
  cases decoded : decodeOne rest with
  | none =>
    have none_ : repairOne rest = (replacement, 1) := by
      unfold repairOne
      dsimp only
      rw [if_pos (.inl (by rw [utf8_sequence_width_eq, decoded]; rfl))]
    rw [none_]
    exact replaced
  | some result =>
    obtain ⟨code, width⟩ := result
    by_cases control : width = 1 ∧ binaryControl (rest.headD 0) = true
    · have same : utf8SequenceWidth rest = width := by
        rw [utf8_sequence_width_eq, decoded]
        rfl
      have taken : repairOne rest = (replacement, 1) := by
        unfold repairOne
        dsimp only
        rw [same, if_pos (.inr control)]
      rw [taken]
      exact replaced
    · rw [repair_one_kept decoded control]
      have wide := decode_one_width decoded
      obtain ⟨scalar, size, after, rfl⟩ := decode_one_iff.mp decoded
      have front : (sequence code ++ after).take width = sequence code := by
        rw [size, List.take_left]
      dsimp only
      rw [front]
      refine ⟨wide, by omega, sequence_ne_nil code, valid_sequence scalar, fun c inside => ?_⟩
      by_cases one : width = 1
      · -- A sequence of one byte is the byte that was tested.
        obtain ⟨only, shape⟩ := List.length_eq_one_iff.mp (size.symm.trans one)
        rw [shape] at inside control
        rw [List.mem_singleton.mp inside]
        simpa [one] using control
      · exact sequence_plain scalar inside (by omega)

theorem repaired_mended (rounds : Nat) :
    ∀ data : Bytes, data.length ≤ rounds → data ≠ [] → Mended data (repaired rounds data) data.length := by
  induction rounds with
  | zero => exact fun data short some_ => absurd (List.length_eq_zero_iff.mp (Nat.le_zero.mp short)) some_
  | succ rounds ih =>
    intro data short some_
    cases data with
    | nil => exact absurd rfl some_
    | cons c after =>
      have first := @repair_one_mended (c :: after) (by simp)
      rw [repaired]
      generalize (repairOne (c :: after)).1 = put at first
      generalize (repairOne (c :: after)).2 = width at first
      obtain ⟨reads, size, put_, valid, plain⟩ := first
      by_cases done : (c :: after).drop width = []
      · have last : repaired rounds ((c :: after).drop width) = [] := by
          rw [done]
          cases rounds <;> rfl
        rw [last, List.append_nil]
        exact ⟨⟨by simp, (Nat.le_refl _)⟩, by omega, put_, valid, plain⟩
      · have shorter : ((c :: after).drop width).length = (c :: after).length - width := List.length_drop
        have rest := ih _ (by omega) done
        refine ⟨⟨by simp, (Nat.le_refl _)⟩, ?_, by simp [put_], valid_append valid rest.valid, fun b inside => ?_⟩
        · have less := rest.size
          rw [List.length_append]
          omega
        · exact (List.mem_append.mp inside).elim (plain b) (rest.plain b)

theorem repaired_same (rounds : Nat) :
    ∀ data : Bytes, data.length ≤ rounds → Valid data → (∀ c ∈ data, binaryControl c = false) →
      repaired rounds data = data := by
  induction rounds with
  | zero =>
    intro data short _ _
    rw [List.length_eq_zero_iff.mp (Nat.le_zero.mp short)]
    rfl
  | succ rounds ih =>
    intro data short valid plain
    cases data with
    | nil => rfl
    | cons c after =>
      obtain ⟨code, width, decoded, rest⟩ := valid_step valid (by simp)
      have wide := decode_one_width decoded
      have fine : ¬ (width = 1 ∧ binaryControl ((c :: after).headD 0) = true) := by
        rintro ⟨-, control⟩
        rw [List.headD_cons, plain c (by simp)] at control
        cases control
      have shorter : ((c :: after).drop width).length = (c :: after).length - width := List.length_drop
      rw [repaired, repair_one_kept decoded fine, ih _ (by omega) rest fun b inside => plain b (List.mem_of_mem_drop inside)]
      exact List.take_append_drop width (c :: after)

theorem repair_loop_plenty (plenty : ∀ size, grants size = true) (rounds : Nat) :
    ∀ (buffer : HtmlBuffer) (data : Bytes), data.length ≤ rounds → buffer.data.length + 3 * data.length ≤ buffer.limit →
      ∃ after, repairLoop grants rounds buffer data = .ok after ∧ after.data = buffer.data ++ repaired rounds data := by
  induction rounds with
  | zero =>
    intro buffer data short _
    rw [List.length_eq_zero_iff.mp (Nat.le_zero.mp short)]
    exact ⟨buffer, rfl, (List.append_nil _).symm⟩
  | succ rounds ih =>
    intro buffer data short room
    cases data with
    | nil => exact ⟨buffer, rfl, (List.append_nil _).symm⟩
    | cons c after =>
      have one := @repair_one_mended (c :: after) (by simp)
      have reads := one.reads
      have size := one.size
      have shorter : ((c :: after).drop (repairOne (c :: after)).2).length =
        (c :: after).length - (repairOne (c :: after)).2 := List.length_drop
      obtain ⟨next, put, grown, limit⟩ := @buffer_put_plenty buffer (repairOne (c :: after)).1 _ plenty (by omega)
      obtain ⟨last, rest, data_⟩ := ih next ((c :: after).drop (repairOne (c :: after)).2) (by omega)
        (by rw [grown, limit, List.length_append]; omega)
      rw [repairLoop, put]
      refine ⟨last, rest, ?_⟩
      rw [data_, grown, repaired, List.append_assoc]

theorem repair_loop_ok (rounds : Nat) : ∀ (buffer last : HtmlBuffer) (data : Bytes), data.length ≤ rounds →
      repairLoop grants rounds buffer data = .ok last → last.data = buffer.data ++ repaired rounds data := by
  induction rounds with
  | zero =>
    intro buffer last data short ends
    rw [List.length_eq_zero_iff.mp (Nat.le_zero.mp short)] at ends ⊢
    cases ends
    exact (List.append_nil _).symm
  | succ rounds ih =>
    intro buffer last data short ends
    cases data with
    | nil =>
      cases ends
      exact (List.append_nil _).symm
    | cons c after =>
      have reads := (@repair_one_mended (c :: after) (by simp)).reads
      have shorter : ((c :: after).drop (repairOne (c :: after)).2).length =
        (c :: after).length - (repairOne (c :: after)).2 := List.length_drop
      rw [repairLoop] at ends
      cases put : bufferPutn grants buffer (repairOne (c :: after)).1 with
      | mk ok next =>
        rw [put] at ends
        cases ok with
        | false => cases ends
        | true =>
          rw [ih next last _ (by omega) ends, buffer_put_ok put, repaired, List.append_assoc]

theorem repair_loop_errors {error : HtmlError} (rounds : Nat) :
    ∀ (buffer : HtmlBuffer) (data : Bytes), repairLoop grants rounds buffer data = .error error →
      error = .htmlInputLimit ∨ error = .outOfMemory := by
  induction rounds with
  | zero =>
    intro buffer data ends
    cases data <;> cases ends
  | succ rounds ih =>
    intro buffer data ends
    cases data with
    | nil => cases ends
    | cons c after =>
      rw [repairLoop] at ends
      split at ends
      · cases ends
        split_ifs
        · exact .inl rfl
        · exact .inr rfl
      · exact ih _ _ ends

def Stops {α : Type} (result : Except HtmlError α) : Prop :=
  ∀ error, result = .error error → error = .htmlOutputLimit ∨ error = .outOfMemory

theorem stops_ok (value : α) : Stops (.ok value : Except HtmlError α) :=
  fun _ same => by cases same

theorem stops_failed (text : HtmlBuffer) : Stops (.error (failed text) : Except HtmlError α) := by
  intro error same
  cases same
  unfold failed
  split_ifs
  · exact .inl rfl
  · exact .inr rfl

theorem stops_map {β : Type} {result : Except HtmlError α} (stops : Stops result) (f : α → β) : Stops (result.map f) := by
  cases result with
  | ok value => exact stops_ok _
  | error error =>
    intro e same
    cases same
    exact stops error rfl

theorem stops_bind {β : Type} {result : Except HtmlError α} {next : α → Except HtmlError β} (stops : Stops result)
    (after : ∀ value, Stops (next value)) : Stops (result >>= next) := by
  cases result with
  | ok value => exact after value
  | error error =>
    intro e same
    cases same
    exact stops error rfl

section Stops

variable (heap : Heap) (state : Extraction)
include heap state

theorem put_text_stops (text : Bytes) : Stops (putText heap state text) := by
  unfold putText
  split
  · exact stops_ok _
  · exact stops_failed _

theorem put_title_stops (text : Bytes) : Stops (putTitle heap state text) := by
  unfold putTitle
  split
  · exact stops_ok _
  · exact stops_failed _

theorem put_stops (text : Bytes) : Stops (put heap state text) := by
  unfold put
  split_ifs
  · exact put_title_stops heap state text
  · exact put_text_stops heap state text

theorem markup_stops (closing : Bool) (tag : Bytes) : Stops (markup heap state closing tag) := by
  refine stops_bind ?_ fun state => ?_
  · unfold lineBreak
    split_ifs
    · exact put_text_stops heap state _
    · exact stops_ok state
  · split_ifs
    · exact put_text_stops heap state _
    · exact put_text_stops heap state _
    · exact stops_ok state

theorem open_tag_stops (closing : Bool) (tag : Bytes) : Stops (openTag heap state closing tag) := by
  unfold openTag
  split_ifs
  all_goals first
    | exact stops_ok _
    | exact markup_stops heap state closing tag

theorem extract_tag_stops (after : Bytes) : Stops (extractTag heap state after) := by
  unfold extractTag
  split
  · split_ifs
    · exact stops_ok _
    · exact stops_map (put_stops heap state _) _
  · split
    · split_ifs
      · exact stops_map (put_title_stops heap state _) _
      · exact stops_ok _
      · exact stops_map (put_text_stops heap state _) _
      · exact stops_ok _
    · exact stops_map (open_tag_stops heap state _ _) _

theorem extract_one_stops (c : UInt8) (after : Bytes) : Stops (extractOne heap state c after) := by
  unfold extractOne
  by_cases tag : c = 0x3c
  · rw [if_pos tag]
    split_ifs
    · split
      · exact stops_ok _
      · exact stops_ok _
    · exact extract_tag_stops heap state after
  rw [if_neg tag]
  by_cases hidden : state.skip ≠ [] ∨ (state.inHead ∧ !state.inTitle)
  · rw [if_pos hidden]
    exact stops_ok _
  rw [if_neg hidden]
  split
  · exact stops_map (put_stops heap state _) _
  · exact stops_map (put_stops heap state _) _

end Stops

theorem extract_loop_stops (heap : Heap) (rounds : Nat) :
    ∀ (state : Extraction) (rest : Bytes), Stops (extractLoop heap rounds state rest) := by
  induction rounds with
  | zero =>
    intro state rest
    cases rest <;> exact stops_ok _
  | succ rounds ih =>
    intro state rest
    cases rest with
    | nil => exact stops_ok _
    | cons c after =>
      rw [extractLoop]
      have one := extract_one_stops heap state c after
      cases result : extractOne heap state c after with
      | error error =>
        rw [result] at one
        intro e same
        cases same
        exact one error rfl
      | ok next => exact ih next.1 next.2

theorem settle_stops (heap : Heap) (state : Extraction) : Stops (settle heap state) := by
  refine stops_bind ?_ fun state => ?_
  · unfold settleText
    split_ifs
    · exact put_text_stops heap state _
    · exact stops_ok state
  · unfold settleTitle
    split_ifs
    · split
      · exact stops_ok _
      · exact stops_failed _
    · exact stops_ok _

theorem extract_valid_stops (heap : Heap) (valid : samosaHtmlTextValid data = .ok ())
    (maxTextBytes : Nat) : Stops (samosaHtmlExtract heap data maxTextBytes) := by
  unfold samosaHtmlExtract
  by_cases nothing : maxTextBytes = 0
  · rw [if_pos nothing]
    intro error same
    cases same
    exact .inl rfl
  · rw [if_neg nothing, valid]
    exact stops_bind (extract_loop_stops heap _ _ _) fun state => stops_bind (settle_stops heap state) fun _ => stops_ok _

theorem repaired_text_valid (some_ : data ≠ []) : samosaHtmlTextValid (repaired data.length data) = .ok () := by
  have mended := repaired_mended data.length data (Nat.le_refl _) some_
  exact (text_valid_iff _).mpr ⟨mended.some_, mended.valid, mended.plain⟩

theorem repair_filled (ends : repair grants data = .ok buffer) : buffer.data = repaired data.length data :=
  repair_loop_ok data.length _ buffer data (Nat.le_refl _) ends

theorem replacing_stops (heap : Heap) (some_ : data ≠ []) (maxTextBytes : Nat) {error : HtmlError}
    (fails : samosaHtmlExtractReplacingInvalid heap data maxTextBytes = .error error) :
    error ≠ .htmlInvalidUtf8 ∧ error ≠ .htmlBinaryControl := by
  unfold samosaHtmlExtractReplacingInvalid at fails
  by_cases large : data.length > (sizeMax - 1) / 3
  · rw [if_pos large] at fails
    cases fails
    exact ⟨by decide, by decide⟩
  rw [if_neg large] at fails
  cases result : repair heap.repaired data with
  | error e =>
    rw [result] at fails
    cases fails
    rcases repair_loop_errors _ _ _ result with rfl | rfl
    · exact ⟨by decide, by decide⟩
    · exact ⟨by decide, by decide⟩
  | ok buffer =>
    rw [result] at fails
    have valid : samosaHtmlTextValid buffer.data = .ok () := by
      rw [repair_filled result]
      exact repaired_text_valid some_
    rcases extract_valid_stops heap valid maxTextBytes error fails with rfl | rfl
    · exact ⟨by decide, by decide⟩
    · exact ⟨by decide, by decide⟩

theorem html_repair (data : Bytes) (some_ : data ≠ []) :
    (∀ grants, (∀ size, grants size = true) → ∃ buffer, repair grants data = .ok buffer) ∧
    (∀ grants buffer, repair grants data = .ok buffer →
      samosaHtmlTextValid buffer.data = .ok () ∧ (samosaHtmlTextValid data = .ok () → buffer.data = data) ∧
      buffer.data.length ≤ 3 * data.length ∧
      ∀ grants' again, repair grants' buffer.data = .ok again → again.data = buffer.data) ∧
    (∀ heap maxTextBytes error, samosaHtmlExtractReplacingInvalid heap data maxTextBytes = .error error →
      error ≠ .htmlInvalidUtf8 ∧ error ≠ .htmlBinaryControl) ∧
    (utf8SequenceWidth data ≠ 0 →
      utf8SequenceWidth data ≤ data.length ∧ validUtf8 (data.take (utf8SequenceWidth data)) = true) ∧
    (∀ n, 0 < n ∧ n ≤ data.length → validUtf8 (data.take n) = true →
      utf8SequenceWidth data ≠ 0 ∧ utf8SequenceWidth data ≤ n) := by
  have mended := repaired_mended data.length data (Nat.le_refl _) some_
  refine ⟨fun grants plenty => ?_, fun grants buffer ends => ?_,
    fun heap maxTextBytes error fails => replacing_stops heap some_ maxTextBytes fails, width_accepted,
    fun n inside => accepted_width inside⟩
  · obtain ⟨buffer, ends, _⟩ := repair_loop_plenty plenty data.length { limit := data.length * 3 } data (Nat.le_refl _)
      (by simp; omega)
    exact ⟨buffer, ends⟩
  · have filled := repair_filled ends
    refine ⟨by rw [filled]; exact repaired_text_valid some_, fun valid => ?_, ?_, fun grants' again ends' => ?_⟩
    · obtain ⟨_, valid, plain⟩ := (text_valid_iff data).mp valid
      rw [filled, repaired_same _ data (Nat.le_refl _) valid plain]
    · rw [filled]
      exact mended.size
    · rw [repair_filled ends', filled]
      exact repaired_same _ _ (Nat.le_refl _) mended.valid mended.plain

theorem html_repair_bad_byte :
    ∃ buffer, repair (fun _ => true) [0x61, 0xff, 0x01] = .ok buffer ∧ samosaHtmlTextValid buffer.data = .ok () := by
  obtain ⟨total, good, _⟩ := html_repair [0x61, 0xff, 0x01] (by decide)
  obtain ⟨buffer, ends⟩ := total (fun _ => true) fun _ => rfl
  exact ⟨buffer, ends, (good _ buffer ends).1⟩

end SamosaChat.Html
