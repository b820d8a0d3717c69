import Mathlib.Data.List.Basic

set_option autoImplicit false

namespace SamosaChat.Scan

-- The scan `for (i = 0; i < count; ++i)` that keeps the best eligible index.
def better (eligible : Nat → Bool) (precedes : Nat → Nat → Bool) (best : Option Nat) (i : Nat) : Option Nat :=
  if eligible i then
    match best with
    | none => some i
    | some b => if precedes i b then some i else some b
  else best

def bestOf (count : Nat) (eligible : Nat → Bool) (precedes : Nat → Nat → Bool) : Option Nat :=
  (List.range count).foldl (better eligible precedes) none

theorem best_of_succ (count : Nat) (eligible : Nat → Bool) (precedes : Nat → Nat → Bool) :
    bestOf (count + 1) eligible precedes = better eligible precedes (bestOf count eligible precedes) count := by
  rw [bestOf, List.range_succ, List.foldl_append]
  rfl

theorem best_of_some (count : Nat) (eligible : Nat → Bool) (precedes : Nat → Nat → Bool) (i : Nat)
    (chosen : bestOf count eligible precedes = some i) : i < count ∧ eligible i = true := by
  induction count generalizing i with
  | zero => simp [bestOf] at chosen
  | succ count ih =>
    rw [best_of_succ, better.eq_def] at chosen
    by_cases fits : eligible count
    · rw [if_pos fits] at chosen
      cases before : bestOf count eligible precedes with
      | none =>
        rw [before] at chosen
        cases chosen
        exact ⟨by omega, fits⟩
      | some b =>
        rw [before] at chosen
        dsimp only at chosen
        split at chosen
        · cases chosen
          exact ⟨by omega, fits⟩
        · have old := ih b before
          cases chosen
          exact ⟨by omega, old.2⟩
    · rw [if_neg fits] at chosen
      have old := ih i chosen
      exact ⟨by omega, old.2⟩

theorem best_of_none (count : Nat) (eligible : Nat → Bool) (precedes : Nat → Nat → Bool) :
    bestOf count eligible precedes = none ↔ ∀ i < count, eligible i = false := by
  induction count with
  | zero => simp [bestOf]
  | succ count ih =>
    rw [best_of_succ, better.eq_def]
    by_cases fits : eligible count
    · rw [if_pos fits]
      constructor
      · intro empty
        cases before : bestOf count eligible precedes with
        | none => simp [before] at empty
        | some b =>
          rw [before] at empty
          dsimp only at empty
          split at empty <;> cases empty
      · intro none
        rw [none count (by omega)] at fits
        cases fits
    · rw [if_neg fits, ih]
      constructor
      · intro before i bound
        rcases Nat.lt_succ_iff_lt_or_eq.mp bound with less | here
        · exact before i less
        · simpa [here] using fits
      · intro all i bound
        exact all i (by omega)

theorem best_of_congr (count : Nat) (eligible others : Nat → Bool) (precedes outranks : Nat → Nat → Bool)
    (same : ∀ i < count, eligible i = others i)
    (agree : ∀ i < count, ∀ j < count, eligible i = true → eligible j = true → precedes i j = outranks i j) :
    bestOf count eligible precedes = bestOf count others outranks := by
  induction count with
  | zero => rfl
  | succ count ih =>
    have prior := ih (fun i bound => same i (by omega))
      (fun i boundI j boundJ => agree i (by omega) j (by omega))
    rw [best_of_succ, best_of_succ, better.eq_def, better.eq_def, ← prior, ← same count (by omega)]
    by_cases fits : eligible count
    · rw [if_pos fits, if_pos fits]
      cases before : bestOf count eligible precedes with
      | none => rfl
      | some b =>
        have old := best_of_some count eligible precedes b before
        dsimp only
        rw [agree count (by omega) b (by omega) fits old.2]
    · rw [if_neg fits, if_neg fits]

theorem best_of_least (count : Nat) (eligible : Nat → Bool) (precedes : Nat → Nat → Bool)
    (total : ∀ i < count, ∀ j < count, eligible i = true → eligible j = true → i ≠ j → precedes i j = false → precedes j i = true)
    (trans : ∀ i < count, ∀ j < count, ∀ k < count, eligible i = true → eligible j = true → eligible k = true →
      precedes i j = true → precedes j k = true → precedes i k = true)
    (i : Nat) (chosen : bestOf count eligible precedes = some i) :
    ∀ j < count, eligible j = true → j ≠ i → precedes i j = true := by
  induction count generalizing i with
  | zero => exact fun j bound => absurd bound (Nat.not_lt_zero j)
  | succ count ih =>
    have older := ih (fun i boundI j boundJ => total i (by omega) j (by omega))
      (fun i boundI j boundJ k boundK => trans i (by omega) j (by omega) k (by omega))
    rw [best_of_succ, better.eq_def] at chosen
    intro j bound fits other
    by_cases last : eligible count
    · rw [if_pos last] at chosen
      cases before : bestOf count eligible precedes with
      | none =>
        rw [before] at chosen
        cases chosen
        rw [(best_of_none count eligible precedes).mp before j (by omega)] at fits
        cases fits
      | some b =>
        obtain ⟨inside, eligibleB⟩ := best_of_some count eligible precedes b before
        rw [before] at chosen
        dsimp only at chosen
        by_cases ahead : precedes count b
        · rw [if_pos ahead] at chosen
          cases chosen
          by_cases best : j = b
          · rwa [best]
          · exact trans count (by omega) b (by omega) j (by omega) last eligibleB fits ahead
              (older b before j (by omega) fits best)
        · rw [if_neg ahead] at chosen
          cases chosen
          by_cases here : j = count
          · subst here
            exact total j (by omega) i (by omega) last eligibleB other (by simpa using ahead)
          · exact older i before j (by omega) fits other
    · rw [if_neg last] at chosen
      have here : j ≠ count := by
        rintro rfl
        exact last fits
      exact older i chosen j (by omega) fits other

end SamosaChat.Scan
