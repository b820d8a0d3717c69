import SamosaChat.Lib.Utf8Scan

set_option autoImplicit false

namespace SamosaChat.Utf8

theorem tail_of_nat (n : Nat) : isTail (.ofNat (0x80 + n % 64)) = true := by
  have small : n % 64 < 64 := Nat.mod_lt _ (by decide)
  rw [is_tail_iff, to_nat_of_nat (by omega)]
  omega

theorem sequence_tails (code : Nat) : ∀ c ∈ (sequence code).tail, isTail c = true := by
  intro c inside
  unfold sequence at inside
  split_ifs at inside
  · cases inside
  · cases List.mem_singleton.mp inside
    exact tail_of_nat code
  · rcases List.mem_cons.mp inside with rfl | last
    · exact tail_of_nat (code / 64)
    · cases List.mem_singleton.mp last
      exact tail_of_nat code
  · rcases List.mem_cons.mp inside with rfl | later
    · exact tail_of_nat (code / 4096)
    · rcases List.mem_cons.mp later with rfl | last
      · exact tail_of_nat (code / 64)
      · cases List.mem_singleton.mp last
        exact tail_of_nat code

theorem valid_cut {first second : Bytes} (valid : Valid (first ++ second)) (stop : ∀ c ∈ second.head?, isTail c = false) :
    Valid first ∧ Valid second := by
  obtain ⟨codes, scalars, whole⟩ := valid
  induction codes generalizing first with
  | nil =>
    obtain ⟨rfl, rfl⟩ := List.append_eq_nil_iff.mp whole.symm
    exact ⟨valid_nil, valid_nil⟩
  | cons code codes ih =>
    have scalar := scalars code List.mem_cons_self
    have later : ∀ code ∈ codes, Scalar code := fun code inside => scalars code (List.mem_cons_of_mem _ inside)
    rw [encode_cons] at whole
    rcases List.append_eq_append_iff.mp whole with ⟨a, front, rest⟩ | ⟨a, front, rest⟩
    · obtain ⟨left, right⟩ := ih later rest
      exact ⟨front ▸ valid_append (valid_sequence scalar) left, right⟩
    · cases first with
      | nil => exact ⟨valid_nil, ⟨code :: codes, scalars, by rw [encode_cons, front, rest, List.nil_append]⟩⟩
      | cons c first =>
        cases a with
        | nil =>
          rw [List.append_nil] at front
          exact ⟨front ▸ valid_sequence scalar, ⟨codes, later, by rw [rest, List.nil_append]⟩⟩
        | cons b a =>
          have tail : isTail b = true := sequence_tails code b (by rw [front]; simp)
          have not_ : isTail b = false := stop b (by rw [rest]; rfl)
          cases tail.symm.trans not_

theorem valid_cut_after {first second : Bytes} {c : UInt8} (valid : Valid (first ++ c :: second)) (ascii : c.toNat < 0x80) :
    Valid (first ++ [c]) ∧ Valid second := by
  have plain : isTail c = false := by
    rw [Bool.eq_false_iff, ne_eq, is_tail_iff]
    omega
  obtain ⟨left, right⟩ := valid_cut valid fun b inside => by
    cases inside
    exact plain
  obtain ⟨code, width, decoded, rest⟩ := valid_step right (by simp)
  cases (decode_one_ascii ascii).symm.trans decoded
  refine ⟨valid_append left ?_, rest⟩
  rw [← sequence_one ascii]
  exact valid_sequence (Or.inl (by omega))

theorem valid_rest {first second : Bytes} (valid : Valid (first ++ second)) (left : Valid first) : Valid second := by
  obtain ⟨codes, scalars, rfl⟩ := left
  induction codes with
  | nil => exact valid
  | cons code codes ih =>
    have scalar := scalars code List.mem_cons_self
    rw [encode_cons, List.append_assoc] at valid
    obtain ⟨code', width, decoded, later⟩ := valid_step valid (by simp [sequence_ne_nil])
    cases (decode_one_sequence scalar _).symm.trans decoded
    rw [List.drop_left] at later
    exact ih (fun c inside => scalars c (List.mem_cons_of_mem _ inside)) later

theorem valid_head {text : Bytes} (valid : Valid text) : ∀ c ∈ text.head?, isTail c = false := by
  intro c head
  cases text with
  | nil => cases head
  | cons a rest =>
    cases head
    obtain ⟨code, width, decoded, _⟩ := valid_step valid (by simp)
    rw [Bool.eq_false_iff, ne_eq, is_tail_iff]
    intro tail
    rw [decodeOne, if_neg (by omega)] at decoded
    by_cases low : c.toNat < 0xc2
    · rw [if_pos low] at decoded
      cases decoded
    · omega

end SamosaChat.Utf8
