import Mathlib.Logic.Function.Basic

set_option autoImplicit false

namespace SamosaChat.Runs

variable {σ α : Type} {step : σ → α → σ} {Inv : σ → Prop} {Good : σ → α → Prop} {state : σ}

def Along (step : σ → α → σ) (Good : σ → α → Prop) : σ → List α → Prop
  | _, [] => True
  | state, action :: rest => Good state action ∧ Along step Good (step state action) rest

instance decidableAlong [∀ s a, Decidable (Good s a)] :
    (state : σ) → (actions : List α) → Decidable (Along step Good state actions)
  | _, [] => isTrue trivial
  | state, action :: rest =>
    match (inferInstance : Decidable (Good state action)), decidableAlong (step state action) rest with
    | isTrue now, isTrue later => isTrue ⟨now, later⟩
    | isFalse never, _ => isFalse fun along => never along.1
    | _, isFalse never => isFalse fun along => never along.2

theorem run_invariant (preserved : ∀ s a, Inv s → Inv (step s a)) (initial : Inv state) (actions : List α) :
    Inv (actions.foldl step state) := by
  induction actions generalizing state with
  | nil => exact initial
  | cons action rest ih => exact ih (preserved state action initial)

theorem along_invariant (preserved : ∀ s a, Inv s → Good s a → Inv (step s a)) (initial : Inv state)
    (actions : List α) (good : Along step Good state actions) : Inv (actions.foldl step state) := by
  induction actions generalizing state with
  | nil => exact initial
  | cons action rest ih => exact ih (preserved state action initial good.1) good.2

theorem along_append {earlier later : List α} (good : Along step Good state (earlier ++ later)) :
    Along step Good state earlier ∧ Along step Good (earlier.foldl step state) later := by
  induction earlier generalizing state with
  | nil => exact ⟨trivial, good⟩
  | cons action rest ih =>
    obtain ⟨before, after⟩ := ih good.2
    exact ⟨⟨good.1, before⟩, after⟩

theorem update_cases {ι β : Type} [DecidableEq ι] {f : ι → β} {a b : ι} {v w : β}
    (found : Function.update f a v b = w) : b = a ∧ v = w ∨ b ≠ a ∧ f b = w := by
  by_cases same : b = a
  · subst same
    rw [Function.update_self] at found
    exact .inl ⟨rfl, found⟩
  · rw [Function.update_of_ne same] at found
    exact .inr ⟨same, found⟩

end SamosaChat.Runs
