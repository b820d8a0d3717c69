import Mathlib.Init

set_option autoImplicit false

namespace SamosaChat

section Guards

variable {α : Sort _} {c : Prop} [Decidable c] {x y z : α}

theorem past_guard (run : (if c then x else y) = z) (other : x ≠ z) : ¬c ∧ y = z := by
  by_cases holds : c
  · rw [if_pos holds] at run
    exact absurd run other
  · rw [if_neg holds] at run
    exact ⟨holds, run⟩

theorem within_guard (run : (if c then x else y) = z) (other : y ≠ z) : c ∧ x = z := by
  by_cases holds : c
  · rw [if_pos holds] at run
    exact ⟨holds, run⟩
  · rw [if_neg holds] at run
    exact absurd run other

end Guards

end SamosaChat

namespace SamosaChat.Iterate

variable {σ : Type}

-- A while loop: `step` answers `none` where the loop is left. `fuel` bounds the
-- number of rounds; `iterate_stopped` is the proof that a loop was not cut short.
@[grind =]
def iterate (step : σ → Option σ) : Nat → σ → σ
  | 0, state => state
  | fuel + 1, state =>
    match step state with
    | none => state
    | some next => iterate step fuel next

variable {step : σ → Option σ} {Inv : σ → Prop} {n : Nat} {state : σ}

theorem iterate_invariant (preserved : ∀ s t, Inv s → step s = some t → Inv t)
    (initial : Inv state) : Inv (iterate step n state) := by
  induction n generalizing state with
  | zero => exact initial
  | succ n ih =>
    rw [iterate]
    cases taken : step state with
    | none => exact initial
    | some next => exact ih (preserved state next initial taken)

theorem iterate_stopped (work : σ → Nat) (preserved : ∀ s t, Inv s → step s = some t → Inv t)
    (smaller : ∀ s t, Inv s → step s = some t → work t < work s) (initial : Inv state) (enough : work state ≤ n) :
    step (iterate step n state) = none := by
  induction n generalizing state with
  | zero =>
    cases taken : step state with
    | none => simpa only [iterate] using taken
    | some next =>
      have less := smaller state next initial taken
      omega
  | succ n ih =>
    rw [iterate]
    cases taken : step state with
    | none => exact taken
    | some next =>
      have less := smaller state next initial taken
      exact ih (preserved state next initial taken) (by omega)

theorem iterate_idle (stopped : step state = none) : iterate step n state = state := by
  cases n with
  | zero => rfl
  | succ n => rw [iterate, stopped]

theorem iterate_next {next : σ} (taken : step state = some next) : iterate step (n + 1) state = iterate step n next := by
  rw [iterate, taken]

theorem iterate_settled {m : Nat} (stopped : step (iterate step n state) = none)
    (ended : step (iterate step m state) = none) : iterate step n state = iterate step m state := by
  induction n generalizing m state with
  | zero => exact (iterate_idle stopped).symm
  | succ n ih =>
    cases taken : step state with
    | none => rw [iterate_idle taken, iterate_idle taken]
    | some next =>
      cases m with
      | zero => rw [iterate, taken] at ended; cases ended
      | succ m =>
        rw [iterate_next taken] at stopped ended ⊢
        rw [iterate_next taken]
        exact ih stopped ended

theorem map_m_some_iff {α β : Type} {f : α → Option β} {l : List α} {out : List β} :
    l.mapM f = some out ↔ l.map f = out.map some := by
  induction l generalizing out with
  | nil =>
    rw [List.mapM_nil, Option.pure_def, Option.some.injEq, List.map_nil]
    exact ⟨fun none_ => none_ ▸ rfl, fun none_ => (List.map_eq_nil_iff.mp none_.symm).symm⟩
  | cons a rest ih =>
    rw [List.mapM_cons, List.map_cons]
    constructor
    · intro all
      obtain ⟨b, here, tail⟩ := Option.bind_eq_some_iff.mp all
      obtain ⟨more, later, same⟩ := Option.bind_eq_some_iff.mp tail
      cases same
      rw [here, ih.mp later, List.map_cons]
    · intro all
      cases out with
      | nil => cases all
      | cons b out =>
        rw [List.map_cons, List.cons.injEq] at all
        rw [all.1, ih.mpr all.2]
        rfl

end SamosaChat.Iterate
