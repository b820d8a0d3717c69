import Mathlib.Data.Finset.Card
import Mathlib.Tactic.Ring
import SamosaChat.Lib.Iterate

set_option autoImplicit false

namespace SamosaChat.Teacher

def uint64Max : Nat := 2 ^ 64 - 1

-- teacher_is_calibration from one index on, with the number of indexes left. None where teacher_die ends the program.
def isCalibrationFrom (ordinal positions calibration : Nat) : Nat → Nat → Option Bool
  | 0, _ => some false
  | left + 1, index =>
    let factor := (index * 2 + 1) % 2 ^ 64
    if positions > uint64Max / factor then none
    else
      let selected := factor * positions % 2 ^ 64 / (2 * calibration % 2 ^ 64)
      if selected = ordinal then some true
      else if selected > ordinal then some false
      else isCalibrationFrom ordinal positions calibration left (index + 1)

def isCalibration (ordinal positions calibration : Nat) : Option Bool :=
  isCalibrationFrom ordinal positions calibration calibration 0

def midpoint (positions calibration index : Nat) : Nat :=
  (2 * index + 1) * positions / (2 * calibration)

section Midpoints

variable {positions calibration : Nat}

theorem midpoint_next (some_ : 1 ≤ calibration) (enough : calibration ≤ positions) (index : Nat) :
    midpoint positions calibration index < midpoint positions calibration (index + 1) := by
  have further : (2 * index + 1) * positions + 2 * calibration ≤ (2 * (index + 1) + 1) * positions := by
    have split : (2 * (index + 1) + 1) * positions = (2 * index + 1) * positions + 2 * positions := by ring
    omega
  calc midpoint positions calibration index
      < (2 * index + 1) * positions / (2 * calibration) + 1 := Nat.lt_succ_self _
    _ = ((2 * index + 1) * positions + 2 * calibration) / (2 * calibration) :=
        (Nat.add_div_right _ (by omega)).symm
    _ ≤ midpoint positions calibration (index + 1) := Nat.div_le_div_right further

theorem midpoint_increasing (some_ : 1 ≤ calibration) (enough : calibration ≤ positions) :
    StrictMono (midpoint positions calibration) :=
  strictMono_nat_of_lt_succ (midpoint_next some_ enough)

theorem midpoint_below {index : Nat} (some_ : 1 ≤ positions) (inside : index < calibration) :
    midpoint positions calibration index < positions := by
  apply Nat.div_lt_of_lt_mul
  exact Nat.mul_lt_mul_of_pos_right (by omega) (by omega)

end Midpoints

theorem guard_fits {positions index : Nat} : ¬ positions > uint64Max / (2 * index + 1) ↔ (2 * index + 1) * positions < 2 ^ 64 := by
  rw [not_lt, Nat.le_div_iff_mul_le (by omega), Nat.mul_comm, uint64Max]
  omega

section Scan

variable {ordinal positions calibration : Nat}

theorem calibration_step (narrow : calibration < 2 ^ 32) {index : Nat} (inside : index < calibration) (left : Nat) :
    isCalibrationFrom ordinal positions calibration (left + 1) index = if (2 * index + 1) * positions < 2 ^ 64 then
        if midpoint positions calibration index = ordinal then some true
        else if midpoint positions calibration index > ordinal then some false
        else isCalibrationFrom ordinal positions calibration left (index + 1) else none := by
  have factor : (index * 2 + 1) % 2 ^ 64 = 2 * index + 1 := by omega
  have parts : 2 * calibration % 2 ^ 64 = 2 * calibration := by omega
  rw [isCalibrationFrom, factor, parts]
  by_cases fits : (2 * index + 1) * positions < 2 ^ 64
  · rw [if_pos fits, if_neg (guard_fits.mpr fits), Nat.mod_eq_of_lt fits]
    rfl
  · rw [if_neg fits, if_pos (not_not.mp (mt guard_fits.mp fits))]

-- Past the first midpoint above the ordinal no other is at it, so that the early return loses nothing.
theorem calibration_from (narrow : calibration < 2 ^ 32) (some_ : 1 ≤ calibration) (enough : calibration ≤ positions)
    (fits : ∀ index < calibration, (2 * index + 1) * positions < 2 ^ 64) (left : Nat) :
    ∀ index, index + left = calibration → isCalibrationFrom ordinal positions calibration left index =
      some (decide (∃ i < calibration, index ≤ i ∧ midpoint positions calibration i = ordinal)) := by
  have increasing := midpoint_increasing some_ enough
  induction left with
  | zero =>
    intro index all
    have none_ : ¬ ∃ i < calibration, index ≤ i ∧ midpoint positions calibration i = ordinal := by
      rintro ⟨i, inside, above, _⟩
      omega
    rw [isCalibrationFrom, decide_eq_false none_]
  | succ left ih =>
    intro index all
    rw [calibration_step narrow (by omega), if_pos (fits index (by omega))]
    split_ifs with here past
    · have found : ∃ i < calibration, index ≤ i ∧ midpoint positions calibration i = ordinal :=
        ⟨index, by omega, le_refl _, here⟩
      rw [decide_eq_true found]
    · have hidden : ¬ ∃ i < calibration, index ≤ i ∧ midpoint positions calibration i = ordinal := by
        rintro ⟨i, _, above, there⟩
        have order := increasing.monotone above
        omega
      rw [decide_eq_false hidden]
    · rw [ih (index + 1) (by omega)]
      refine congrArg some (decide_eq_decide.mpr ⟨?_, ?_⟩)
      · rintro ⟨i, inside, above, there⟩
        exact ⟨i, inside, by omega, there⟩
      · rintro ⟨i, inside, above, there⟩
        have other : i ≠ index := fun same => here (same ▸ there)
        exact ⟨i, inside, by omega, there⟩

-- The last ordinal meets no midpoint above it, and only the last one at it: every index is reached, and its guard.
theorem last_reaches (narrow : calibration < 2 ^ 32) (some_ : 1 ≤ calibration) (enough : calibration ≤ positions)
    (left : Nat) : ∀ index, index + left = calibration →
      isCalibrationFrom (positions - 1) positions calibration left index ≠ none →
      ∀ i, index ≤ i → i < calibration → (2 * i + 1) * positions < 2 ^ 64 := by
  induction left with
  | zero =>
    intro index all _ i above inside
    omega
  | succ left ih =>
    intro index all goes i above inside
    rw [calibration_step narrow (by omega)] at goes
    split_ifs at goes with fits here past
    · by_cases more : index + 1 < calibration
      · have next := midpoint_next some_ enough index
        have below := midpoint_below (show 1 ≤ positions by omega) more
        omega
      · rwa [show i = index from by omega]
    · have below := midpoint_below (show 1 ≤ positions by omega) (show index < calibration by omega)
      omega
    · rcases Nat.eq_or_lt_of_le above with rfl | later
      · exact fits
      · exact ih (index + 1) (by omega) goes i later inside
    · exact absurd rfl goes

end Scan

structure ChosenExactly (positions calibration : Nat) : Prop where
  unwrapped : ∀ index < calibration, (2 * index + 1) * positions < 2 ^ 64
  chosen : ∀ ordinal, isCalibration ordinal positions calibration =
    some (decide (∃ index < calibration, midpoint positions calibration index = ordinal))
  apart : ∀ i j, i < j → midpoint positions calibration i < midpoint positions calibration j
  below : ∀ index < calibration, midpoint positions calibration index < positions
  count : ((Finset.range positions).filter fun ordinal =>
    isCalibration ordinal positions calibration = some true).card = calibration

theorem calibration_exact {positions calibration : Nat} (narrow : calibration < 2 ^ 32) (some_ : 1 ≤ calibration)
    (enough : calibration ≤ positions) (goes : ∀ ordinal < positions, isCalibration ordinal positions calibration ≠ none) :
    ChosenExactly positions calibration := by
  have fits : ∀ index < calibration, (2 * index + 1) * positions < 2 ^ 64 := fun index inside =>
    last_reaches narrow some_ enough calibration 0 (Nat.zero_add _) (goes _ (by omega)) index (Nat.zero_le _) inside
  have increasing := midpoint_increasing some_ enough
  have below : ∀ index < calibration, midpoint positions calibration index < positions := fun index inside =>
    midpoint_below (by omega) inside
  have chosen : ∀ ordinal, isCalibration ordinal positions calibration =
      some (decide (∃ index < calibration, midpoint positions calibration index = ordinal)) := fun ordinal => by
    rw [isCalibration, calibration_from narrow some_ enough fits calibration 0 (Nat.zero_add _)]
    simp only [Nat.zero_le, true_and]
  refine ⟨fits, chosen, fun i j before => increasing before, below, ?_⟩
  have image : (Finset.range positions).filter (fun ordinal =>
      isCalibration ordinal positions calibration = some true) =
      (Finset.range calibration).image (midpoint positions calibration) := by
    ext ordinal
    simp only [Finset.mem_filter, Finset.mem_range, Finset.mem_image, chosen, Option.some.injEq, decide_eq_true_eq]
    refine ⟨fun found => found.2, fun found => ⟨?_, found⟩⟩
    obtain ⟨index, inside, rfl⟩ := found
    exact below index inside
  rw [image, Finset.card_image_of_injective _ increasing.injective, Finset.card_range]

theorem three_of_ten : (∀ ordinal < 10, isCalibration ordinal 10 3 ≠ none) ∧ ChosenExactly 10 3 :=
  ⟨by decide, calibration_exact (by decide) (by decide) (by decide) (by decide)⟩

end SamosaChat.Teacher
