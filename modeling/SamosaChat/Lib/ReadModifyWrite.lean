import SamosaChat.Lib.Runs
import Mathlib.Data.List.Basic

set_option autoImplicit false

namespace SamosaChat.ReadModifyWrite

section Store

variable {σ ν υ : Type}

-- A store that requests replace whole. A request takes a view of it, works out the next content from that
-- view, and writes it later, whatever has been written meanwhile. What an update means to the view is `apply`.
structure Store (σ ν υ : Type) where
  view : σ → ν
  next : υ → ν → σ
  apply : ν → υ → ν

structure World (σ ν υ : Type) where
  content : σ
  held : Nat → Option ν
  acked : List υ

inductive Event (ν υ : Type)
  | idle
  | take (request : Nat) (seen : ν)
  | drop (request : Nat)
  | replace (request : Nat) (update : υ)

def step (store : Store σ ν υ) (world : World σ ν υ) : Event ν υ → World σ ν υ
  | .idle => world
  | .take request seen => { world with held := Function.update world.held request (some seen) }
  | .drop request => { world with held := Function.update world.held request none }
  | .replace request update =>
    match world.held request with
    | none => world
    | some seen =>
      { content := store.next update seen
        held := Function.update world.held request none
        acked := world.acked ++ [update] }

def Current (store : Store σ ν υ) (world : World σ ν υ) : Event ν υ → Prop
  | .idle => True
  | .take _ _ => True
  | .drop _ => True
  | .replace request update => ∀ seen, world.held request = some seen →
      seen = store.view world.content ∧ store.view (store.next update seen) = store.apply seen update

def Serial (store : Store σ ν υ) (start : ν) (world : World σ ν υ) : Prop :=
  store.view world.content = world.acked.foldl store.apply start

theorem serial_step {store : Store σ ν υ} {start : ν} {world : World σ ν υ} {event : Event ν υ}
    (serial : Serial store start world) (current : Current store world event) : Serial store start (step store world event) := by
  cases event with
  | idle => exact serial
  | take request seen => exact serial
  | drop request => exact serial
  | replace request update =>
    unfold Serial
    rw [step]
    cases held : world.held request with
    | none => exact serial
    | some seen =>
      obtain ⟨fresh, shows_⟩ := current seen held
      rw [List.foldl_append, ← serial, ← fresh]
      exact shows_

end Store

section Fields

variable {ν υ φ : Type} {apply : ν → υ → ν} (field : ν → φ) {touches : υ → Prop}

theorem untouched_kept (untouched : ∀ seen update, ¬touches update → field (apply seen update) = field seen)
    (start : ν) (after : List υ) (none_ : ∀ update ∈ after, ¬touches update) : field (after.foldl apply start) = field start := by
  induction after generalizing start with
  | nil => rfl
  | cons update after ih =>
    have later := ih (apply start update) fun other inside => none_ other (List.mem_cons_of_mem _ inside)
    exact later.trans (untouched start update (none_ update (by simp)))

theorem last_touch (untouched : ∀ seen update, ¬touches update → field (apply seen update) = field seen)
    (start : ν) (before after : List υ) (update : υ) (none_ : ∀ other ∈ after, ¬touches other) :
    field ((before ++ update :: after).foldl apply start) = field (apply (before.foldl apply start) update) := by
  rw [List.foldl_append, List.foldl_cons]
  exact untouched_kept field untouched _ after none_

end Fields

end SamosaChat.ReadModifyWrite
