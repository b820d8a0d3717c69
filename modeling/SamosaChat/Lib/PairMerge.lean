import Mathlib.Data.List.Basic

set_option autoImplicit false

namespace SamosaChat.PairMerge

variable {α : Type}

structure RankedAt (rank : α → α → Option Nat) (symbols : List α) (k : Nat) (a b : α) (r : Nat) : Prop where
  first : symbols[k]? = some a
  second : symbols[k + 1]? = some b
  known : rank a b = some r

-- The pair that comes first: no pair has a lower rank, and none of this rank stands further left.
structure Lowest (rank : α → α → Option Nat) (symbols : List α) (k : Nat) (a b : α) (r : Nat) : Prop where
  pair : RankedAt rank symbols k a b r
  least : ∀ j x y r', RankedAt rank symbols j x y r' → r < r' ∨ r = r' ∧ k ≤ j

def Done (rank : α → α → Option Nat) (symbols : List α) : Prop :=
  ∀ k a b r, ¬RankedAt rank symbols k a b r

inductive Step (rank : α → α → Option Nat) (join : α → α → α) : List α → List α → Prop
  | merge {before after : List α} {a b : α} {r : Nat}
      (lowest : Lowest rank (before ++ a :: b :: after) before.length a b r) :
      Step rank join (before ++ a :: b :: after) (before ++ join a b :: after)

inductive Merges (rank : α → α → Option Nat) (join : α → α → α) : Nat → List α → List α → Prop
  | none {symbols : List α} : Merges rank join 0 symbols symbols
  | more {n : Nat} {first next last : List α} (step : Step rank join first next) (rest : Merges rank join n next last) :
      Merges rank join (n + 1) first last

structure Segments (rank : α → α → Option Nat) (join : α → α → α) (n : Nat) (first last : List α) : Prop where
  merges : Merges rank join n first last
  done : Done rank last

variable {rank : α → α → Option Nat} {join : α → α → α} {n m : Nat} {symbols first next last other : List α}

theorem ranked_cons {a x y : α} {k r : Nat} : RankedAt rank (a :: symbols) (k + 1) x y r ↔ RankedAt rank symbols k x y r := by
  constructor
  · rintro ⟨first, second, known⟩
    exact ⟨by rwa [List.getElem?_cons_succ] at first, by rwa [List.getElem?_cons_succ] at second, known⟩
  · rintro ⟨first, second, known⟩
    exact ⟨by rwa [List.getElem?_cons_succ], by rwa [List.getElem?_cons_succ], known⟩

theorem ranked_zero {a b x y : α} {r : Nat} (pair : RankedAt rank (a :: b :: symbols) 0 x y r) : rank a b = some r := by
  obtain ⟨first, second, known⟩ := pair
  cases first
  cases second
  exact known

theorem ranked_single {a x y : α} {k r : Nat} : ¬RankedAt rank [a] k x y r := fun pair => by
  cases pair.second

section Congr

variable {rank' : α → α → Option Nat} (same : ∀ a ∈ symbols, ∀ b ∈ symbols, rank a b = rank' a b)
include same

theorem ranked_congr {k r : Nat} {a b : α} : RankedAt rank symbols k a b r ↔ RankedAt rank' symbols k a b r := by
  constructor
  · rintro ⟨first, second, known⟩
    exact ⟨first, second, (same a (List.mem_of_getElem? first) b (List.mem_of_getElem? second)) ▸ known⟩
  · rintro ⟨first, second, known⟩
    exact ⟨first, second, (same a (List.mem_of_getElem? first) b (List.mem_of_getElem? second)).trans known⟩

theorem Lowest.congr {k r : Nat} {a b : α} (lowest : Lowest rank symbols k a b r) : Lowest rank' symbols k a b r where
  pair := (ranked_congr same).mp lowest.pair
  least := fun j x y r' pair => lowest.least j x y r' ((ranked_congr same).mpr pair)

theorem Done.congr (done : Done rank symbols) : Done rank' symbols :=
  fun k a b r pair => done k a b r ((ranked_congr same).mpr pair)

end Congr

section Places

variable {β : Type} (rank : α → α → Option Nat) (text : β → α) {places : List β}

theorem ranked_text {k r : Nat} {x y : α} (pair : RankedAt rank (places.map text) k x y r) :
    ∃ a b, RankedAt (fun a b => rank (text a) (text b)) places k a b r := by
  obtain ⟨first, second, known⟩ := pair
  rw [List.getElem?_map, Option.map_eq_some_iff] at first second
  obtain ⟨a, first, rfl⟩ := first
  obtain ⟨b, second, rfl⟩ := second
  exact ⟨a, b, first, second, known⟩

theorem Lowest.text_of {k r : Nat} {a b : β} (lowest : Lowest (fun a b => rank (text a) (text b)) places k a b r) :
    Lowest rank (places.map text) k (text a) (text b) r where
  pair := by
    obtain ⟨first, second, known⟩ := lowest.pair
    exact ⟨by rw [List.getElem?_map, first]; rfl, by rw [List.getElem?_map, second]; rfl, known⟩
  least := fun j x y r' pair => by
    obtain ⟨x', y', there⟩ := ranked_text rank text pair
    exact lowest.least j x' y' r' there

theorem Done.text_of (done : Done (fun a b => rank (text a) (text b)) places) : Done rank (places.map text) :=
  fun k _ _ r pair => by
    obtain ⟨a, b, there⟩ := ranked_text rank text pair
    exact done k a b r there

end Places

theorem Lowest.unique {k j r r' : Nat} {a b x y : α} (left : Lowest rank symbols k a b r)
    (right : Lowest rank symbols j x y r') : k = j := by
  rcases left.least j x y r' right.pair with below | ⟨same, before⟩ <;>
    rcases right.least k a b r left.pair with below' | ⟨same', before'⟩ <;> omega

theorem Step.not_done (step : Step rank join first next) : ¬Done rank first := by
  cases step with
  | merge lowest => exact fun done => done _ _ _ _ lowest.pair

theorem Step.length (step : Step rank join first next) : next.length + 1 = first.length := by
  cases step with
  | merge lowest =>
    simp only [List.length_append, List.length_cons]
    omega

theorem Step.unique (step : Step rank join first next) (step' : Step rank join first other) : next = other := by
  generalize same : first = start at step'
  cases step with
  | merge lowest =>
    cases step' with
    | merge lowest' =>
      rw [same] at lowest
      have place := lowest.unique lowest'
      obtain ⟨rfl, tails⟩ := List.append_inj same place
      obtain ⟨rfl, pairs⟩ := List.cons.inj tails
      obtain ⟨rfl, rfl⟩ := List.cons.inj pairs
      rfl

theorem Merges.length (merges : Merges rank join n first last) : last.length + n = first.length := by
  induction merges with
  | none => rfl
  | more step rest ih =>
    have shorter := step.length
    omega

theorem Segments.unique (segments : Segments rank join n first last) (segments' : Segments rank join m first other) :
    n = m ∧ last = other := by
  obtain ⟨merges, done⟩ := segments
  induction merges generalizing m with
  | none =>
    cases segments'.merges with
    | none => exact ⟨rfl, rfl⟩
    | more step rest => exact absurd done step.not_done
  | more step rest ih =>
    cases segments'.merges with
    | none => exact absurd segments'.done step.not_done
    | more step' rest' =>
      cases step.unique step'
      obtain ⟨same, last⟩ := ih ⟨rest', segments'.done⟩ done
      exact ⟨by rw [same], last⟩

section Congr

variable {rank' : α → α → Option Nat} (ok : α → Prop)

theorem Step.congr (same : ∀ a b, ok a → ok b → rank a b = rank' a b) (joins : ∀ a b, ok a → ok b → ok (join a b))
    (start : ∀ a ∈ first, ok a) (step : Step rank join first next) : Step rank' join first next ∧ ∀ a ∈ next, ok a := by
  cases step with
  | @merge before after a b r lowest =>
    refine ⟨.merge (lowest.congr fun x inside y inside' => same x y (start x inside) (start y inside')), ?_⟩
    have left : ok a := start a (by simp)
    have right : ok b := start b (by simp)
    intro x inside
    rcases List.mem_append.mp inside with early | late
    · exact start x (by simp [early])
    · rcases List.mem_cons.mp late with rfl | rest
      · exact joins a b left right
      · exact start x (by simp [rest])

theorem Segments.congr (same : ∀ a b, ok a → ok b → rank a b = rank' a b) (joins : ∀ a b, ok a → ok b → ok (join a b))
    (start : ∀ a ∈ first, ok a) (segments : Segments rank join n first last) : Segments rank' join n first last := by
  obtain ⟨merges, done⟩ := segments
  induction merges with
  | none => exact ⟨.none, done.congr fun x inside y inside' => same x y (start x inside) (start y inside')⟩
  | more step rest ih =>
    obtain ⟨step', start'⟩ := step.congr ok same joins start
    obtain ⟨merges', done'⟩ := ih start' done
    exact ⟨.more step' merges', done'⟩

end Congr

end SamosaChat.PairMerge
