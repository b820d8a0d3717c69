import Mathlib.Algebra.Ring.Nat

set_option autoImplicit false

namespace SamosaChat.Crash

variable {σ α β φ : Type}

-- A program on a store that may be stopped on the way: its answer, none when it was stopped,
-- and the store it leaves.
def Prog (σ α : Type) : Type := σ → Option α × σ

instance : Monad (Prog σ) where
  pure answer := fun store => (some answer, store)
  bind prog next := fun store =>
    match prog store with
    | (some answer, after) => next answer after
    | (none, after) => (none, after)

inductive Fate (φ : Type)
  | allowed
  | refused (fault : φ)
  | stopped

def look : Prog σ σ :=
  fun store => (some store, store)

def call (fate : Fate φ) (refusal : φ → α) (act : σ → α × σ) : Prog σ α :=
  fun store =>
    match fate with
    | .allowed => (some (act store).1, (act store).2)
    | .refused fault => (some (refusal fault), store)
    | .stopped => (none, store)

def Ends (prog : Prog σ α) (post : α → σ → Prop) (crash : σ → Prop) (store : σ) : Prop :=
  match prog store with
  | (some answer, after) => post answer after
  | (none, after) => crash after

variable {prog : Prog σ α} {post post' : α → σ → Prop} {crash crash' : σ → Prop} {store : σ}

@[simp] theorem ends_pure (answer : α) : Ends (pure answer : Prog σ α) post crash store ↔ post answer store :=
  Iff.rfl

@[simp] theorem ends_look {post : σ → σ → Prop} : Ends look post crash store ↔ post store store :=
  Iff.rfl

@[simp] theorem ends_bind {next : α → Prog σ β} {post : β → σ → Prop} : Ends (prog >>= next) post crash store ↔
      Ends prog (fun answer after => Ends (next answer) post crash after) crash store := by
  simp only [Ends, bind]
  cases prog store with
  | mk answer after => cases answer <;> rfl

theorem ends_call {fate : Fate φ} {refusal : φ → α} {act : σ → α × σ} : Ends (call fate refusal act) post crash store ↔
      (fate = .allowed → post (act store).1 (act store).2) ∧
        (∀ fault, fate = .refused fault → post (refusal fault) store) ∧ (fate = .stopped → crash store) := by
  cases fate <;> simp [Ends, call]

theorem ends_call_of {fate : Fate φ} {refusal : φ → α} {act : σ → α × σ}
    (allowed : fate = .allowed → post (act store).1 (act store).2)
    (refused : ∀ fault, post (refusal fault) store) (stopped : crash store) : Ends (call fate refusal act) post crash store :=
  ends_call.mpr ⟨allowed, fun fault _ => refused fault, fun _ => stopped⟩

theorem Ends.mono (ends : Ends prog post crash store) (answers : ∀ answer after, post answer after → post' answer after)
    (stops : ∀ after, crash after → crash' after) : Ends prog post' crash' store := by
  simp only [Ends] at ends ⊢
  cases result : prog store with
  | mk answer after =>
    rw [result] at ends
    cases answer with
    | none => exact stops after ends
    | some answer => exact answers answer after ends

theorem Ends.bind {next : α → Prog σ β} {post' : β → σ → Prop} (first : Ends prog post crash store)
    (then_ : ∀ answer after, post answer after → Ends (next answer) post' crash after) : Ends (prog >>= next) post' crash store :=
  ends_bind.mpr (first.mono then_ fun _ stopped => stopped)

theorem Ends.and (first : Ends prog post crash store) (second : Ends prog post' crash' store) :
    Ends prog (fun answer after => post answer after ∧ post' answer after) (fun after => crash after ∧ crash' after)
      store := by
  simp only [Ends] at first second ⊢
  cases result : prog store with
  | mk answer after =>
    rw [result] at first second
    cases answer <;> exact ⟨first, second⟩

theorem Ends.total (ends : Ends prog post (fun _ => False) store) :
    ∃ answer, (prog store).1 = some answer ∧ post answer (prog store).2 := by
  simp only [Ends] at ends
  cases result : prog store with
  | mk answer after =>
    rw [result] at ends
    cases answer with
    | none => exact ends.elim
    | some answer => exact ⟨answer, rfl, ends⟩

theorem Ends.left {inv : σ → Prop} (ends : Ends prog (fun _ after => inv after) inv store) : inv (prog store).2 := by
  simp only [Ends] at ends
  cases result : prog store with
  | mk answer after =>
    rw [result] at ends
    cases answer <;> exact ends

theorem Ends.answered {answer : α} (ends : Ends prog post crash store) (answers : (prog store).1 = some answer) :
    post answer (prog store).2 := by
  simp only [Ends] at ends
  cases result : prog store with
  | mk given after =>
    rw [result] at ends answers
    cases given with
    | none => cases answers
    | some given =>
      cases answers
      exact ends

end SamosaChat.Crash
