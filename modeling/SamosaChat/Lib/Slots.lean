import Mathlib.Algebra.Order.BigOperators.Group.Finset

set_option autoImplicit false

namespace SamosaChat.Slots

variable {α : Type}

-- An array as the function from its indices; the bounds stay with the loops.
def write (cells : Nat → α) (index : Nat) (value : α) : Nat → α :=
  fun i => if i = index then value else cells i

@[simp] theorem write_same (cells : Nat → α) (index : Nat) (value : α) : write cells index value index = value := by
  simp [write]

@[simp] theorem write_other (cells : Nat → α) (index i : Nat) (value : α) (other : i ≠ index) :
    write cells index value i = cells i := by
  simp [write, other]

section Total

variable {M : Type} [AddCommMonoid M]

def total (count : Nat) (cells : Nat → α) (measure : α → M) : M :=
  ∑ i ∈ Finset.range count, measure (cells i)

theorem total_write (count : Nat) (cells : Nat → α) (measure : α → M) (index : Nat) (value : α) (bound : index < count) :
    total count (write cells index value) measure + measure (cells index) = total count cells measure + measure value := by
  have member : index ∈ Finset.range count := Finset.mem_range.mpr bound
  have others : ∑ i ∈ (Finset.range count).erase index, measure (write cells index value i) =
      ∑ i ∈ (Finset.range count).erase index, measure (cells i) := by
    apply Finset.sum_congr rfl
    intro i other
    rw [write_other cells index i value (Finset.ne_of_mem_erase other)]
  have after := Finset.add_sum_erase (Finset.range count)
    (fun i => measure (write cells index value i)) member
  have before := Finset.add_sum_erase (Finset.range count) (fun i => measure (cells i)) member
  simp only [write_same] at after
  rw [total, total, ← after, ← before, others]
  ac_rfl

theorem total_congr (count : Nat) (cells others : Nat → α) (measure : α → M)
    (same : ∀ i < count, measure (cells i) = measure (others i)) : total count cells measure = total count others measure :=
  Finset.sum_congr rfl (fun i member => same i (Finset.mem_range.mp member))

theorem total_succ (count : Nat) (cells : Nat → α) (measure : α → M) :
    total (count + 1) cells measure = total count cells measure + measure (cells count) :=
  Finset.sum_range_succ _ _

end Total

theorem measure_le_total (count : Nat) (cells : Nat → α) (measure : α → Nat) (index : Nat)
    (bound : index < count) : measure (cells index) ≤ total count cells measure :=
  Finset.single_le_sum (f := fun i => measure (cells i)) (fun _ _ => Nat.zero_le _)
    (Finset.mem_range.mpr bound)

theorem total_mono (count : Nat) (cells : Nat → α) (small large : α → Nat) (below : ∀ value, small value ≤ large value) :
    total count cells small ≤ total count cells large :=
  Finset.sum_le_sum (fun i _ => below (cells i))

theorem total_prefix (upto count : Nat) (cells : Nat → α) (measure : α → Nat) (bound : upto ≤ count) :
    total upto cells measure ≤ total count cells measure :=
  Finset.sum_le_sum_of_subset (Finset.range_subset_range.mpr bound)

theorem total_le_count (count : Nat) (cells : Nat → α) (measure : α → Nat)
    (small : ∀ value, measure value ≤ 1) : total count cells measure ≤ count := by
  have bound := Finset.sum_le_card_nsmul (Finset.range count) (fun i => measure (cells i)) 1
    (fun i _ => small (cells i))
  simpa [total] using bound

theorem total_zero_iff (count : Nat) (cells : Nat → α) (measure : α → Nat) :
    total count cells measure = 0 ↔ ∀ i < count, measure (cells i) = 0 := by
  simp [total, Finset.sum_eq_zero_iff]

variable {κ ν : Type} [DecidableEq κ]

-- `content` reads a key and a value off a cell, or nothing off a free one. A table of
-- slots stands for the map that sends each key it holds to the value beside it.
def Represents (slots : Nat) (cells : Nat → α) (content : α → Option (κ × ν)) (map : κ → Option ν) : Prop :=
  ∀ key value, map key = some value ↔ ∃ i < slots, content (cells i) = some (key, value)

variable {slots : Nat} {cells : Nat → α} {content : α → Option (κ × ν)} {map : κ → Option ν}

omit [DecidableEq κ] in
theorem represents_empty (free : ∀ i < slots, content (cells i) = none) : Represents slots cells content (fun _ => none) := by
  intro key value
  refine ⟨fun absurd_ => (by cases absurd_), fun ⟨i, inside, held⟩ => ?_⟩
  rw [free i inside] at held
  cases held

omit [DecidableEq κ] in
theorem represents_congr {others : Nat → α} (represents : Represents slots cells content map)
    (same : ∀ i < slots, content (others i) = content (cells i)) : Represents slots others content map := by
  intro key value
  rw [represents key value]
  constructor
  · rintro ⟨i, inside, held⟩
    exact ⟨i, inside, (same i inside).trans held⟩
  · rintro ⟨i, inside, held⟩
    exact ⟨i, inside, (same i inside).symm.trans held⟩

theorem represents_write (cells : Nat → α) (represents : Represents slots cells content map) (s : Nat) (inside : s < slots)
    (key : κ) (new : Option ν) (cell : α) (was : ∀ k v, content (cells s) = some (k, v) → k = key)
    (alone : ∀ i < slots, i ≠ s → ∀ v, content (cells i) ≠ some (key, v)) (now : content cell = new.map fun value => (key, value)) :
    Represents slots (write cells s cell) content (Function.update map key new) := by
  intro k v
  by_cases here : k = key
  · subst here
    rw [Function.update_self]
    constructor
    · rintro rfl
      exact ⟨s, inside, by rw [write_same, now, Option.map_some]⟩
    · rintro ⟨i, within, held⟩
      by_cases at_ : i = s
      · rw [at_, write_same, now] at held
        obtain ⟨value, known, same⟩ := Option.map_eq_some_iff.mp held
        cases same
        exact known
      · rw [write_other _ _ _ _ at_] at held
        exact absurd held (alone i within at_ v)
  · rw [Function.update_of_ne here, represents k v]
    constructor
    · rintro ⟨i, within, held⟩
      have other : i ≠ s := by
        rintro rfl
        exact here (was k v held)
      exact ⟨i, within, by rw [write_other _ _ _ _ other, held]⟩
    · rintro ⟨i, within, held⟩
      by_cases at_ : i = s
      · rw [at_, write_same, now] at held
        obtain ⟨value, _, same⟩ := Option.map_eq_some_iff.mp held
        cases same
        exact absurd rfl here
      · rw [write_other _ _ _ _ at_] at held
        exact ⟨i, within, held⟩

end SamosaChat.Slots
