import SamosaChat.Lib.Scan
import Mathlib.Algebra.Ring.Nat
import Mathlib.Data.List.Nodup
import Mathlib.Data.List.Perm.Subperm

set_option autoImplicit false

namespace SamosaChat.Ranking

open Scan

structure Order (count : Nat) (precedes : Nat → Nat → Bool) : Prop where
  irrefl : ∀ i < count, precedes i i = false
  total : ∀ i < count, ∀ j < count, i ≠ j → precedes i j = false → precedes j i = true
  trans : ∀ i < count, ∀ j < count, ∀ k < count, precedes i j = true → precedes j k = true → precedes i k = true

-- The best index that was not taken is taken next, as long as what it needs is within the limit. What is used by an index
-- that was taken is its weight.
def takeBest (count : Nat) (precedes : Nat → Nat → Bool) (weight need : Nat → Nat) (limit : Nat) :
    Nat → List Nat → Nat → List Nat
  | 0, taken, _ => taken
  | rounds + 1, taken, used =>
    match bestOf count (fun i => !taken.contains i) precedes with
    | none => taken
    | some best =>
      if used + need best > limit then taken
      else takeBest count precedes weight need limit rounds (taken ++ [best]) (used + weight best)

section Taken

variable {count : Nat} {precedes : Nat → Nat → Bool} {weight need : Nat → Nat} {limit base : Nat}

def ahead (count : Nat) (precedes : Nat → Nat → Bool) (i : Nat) : List Nat :=
  (List.range count).filter (precedes · i)

def Within (count : Nat) (precedes : Nat → Nat → Bool) (weight need : Nat → Nat) (limit base i : Nat) : Prop :=
  base + ((ahead count precedes i).map weight).sum + need i ≤ limit

-- An index that is taken, told without the order in which the indices are taken.
structure Reached (count : Nat) (precedes : Nat → Nat → Bool) (weight need : Nat → Nat) (limit rounds base i : Nat) : Prop where
  inside : i < count
  rank : (ahead count precedes i).length < rounds
  within : Within count precedes weight need limit base i
  before : ∀ j ∈ ahead count precedes i, Within count precedes weight need limit base j

theorem mem_ahead {i j : Nat} : j ∈ ahead count precedes i ↔ j < count ∧ precedes j i = true := by
  rw [ahead, List.mem_filter, List.mem_range]

structure Leads (count : Nat) (precedes : Nat → Nat → Bool) (weight need : Nat → Nat) (limit base : Nat) (taken : List Nat) :
    Prop where
  inside : ∀ i ∈ taken, i < count
  nodup : taken.Nodup
  sorted : taken.Pairwise fun i j => precedes i j = true
  leads : ∀ i ∈ taken, ∀ j < count, j ∉ taken → precedes i j = true
  within : ∀ i ∈ taken, Within count precedes weight need limit base i

theorem leads_nil : Leads count precedes weight need limit base [] :=
  ⟨by simp, .nil, .nil, by simp, by simp⟩

theorem order_asymm (order : Order count precedes) {i j : Nat} (left : i < count) (right : j < count)
    (first : precedes i j = true) : precedes j i = false := by
  by_contra second
  rw [Bool.not_eq_false] at second
  have loop := order.trans i left j right i left first second
  rw [order.irrefl i left] at loop
  cases loop

section Best

variable {taken : List Nat} {best : Nat}

theorem best_of_rest (order : Order count precedes) (chosen : bestOf count (fun i => !taken.contains i) precedes = some best) :
    best < count ∧ best ∉ taken ∧ ∀ j < count, j ∉ taken → j ≠ best → precedes best j = true := by
  obtain ⟨inside, fresh⟩ := best_of_some _ _ _ _ chosen
  refine ⟨inside, by simpa using fresh, fun j bound other apart => ?_⟩
  exact best_of_least count _ precedes (fun i left j right _ _ => order.total i left j right)
    (fun i left j middle k right _ _ _ => order.trans i left j middle k right) best chosen j bound (by simpa using other) apart

theorem ahead_best (order : Order count precedes) (leads : Leads count precedes weight need limit base taken)
    (chosen : bestOf count (fun i => !taken.contains i) precedes = some best) : (ahead count precedes best).Perm taken := by
  obtain ⟨inside, fresh, least⟩ := best_of_rest order chosen
  refine (List.perm_ext_iff_of_nodup (List.nodup_range.filter _) leads.nodup).mpr fun j => ?_
  rw [← ahead, mem_ahead]
  constructor
  · rintro ⟨bound, first⟩
    by_contra other
    by_cases same : j = best
    · rw [same, order.irrefl best inside] at first
      cases first
    · rw [order_asymm order inside bound (least j bound other same)] at first
      cases first
  · exact fun old => ⟨leads.inside j old, leads.leads j old best inside fresh⟩

theorem leads_snoc (order : Order count precedes) (leads : Leads count precedes weight need limit base taken)
    (chosen : bestOf count (fun i => !taken.contains i) precedes = some best)
    (fits : base + (taken.map weight).sum + need best ≤ limit) : Leads count precedes weight need limit base (taken ++ [best]) := by
  obtain ⟨inside, fresh, least⟩ := best_of_rest order chosen
  have same : (taken.map weight).sum = ((ahead count precedes best).map weight).sum :=
    ((ahead_best order leads chosen).map weight).sum_nat.symm
  refine ⟨?_, ?_, ?_, ?_, ?_⟩
  · exact List.forall_mem_append.mpr ⟨leads.inside, by simpa using inside⟩
  · exact List.nodup_append.mpr ⟨leads.nodup, List.nodup_singleton best, fun i old j new => by
      rw [List.mem_singleton.mp new]
      rintro rfl
      exact fresh old⟩
  · refine List.pairwise_append.mpr ⟨leads.sorted, List.pairwise_singleton _ best, fun i old j new => ?_⟩
    rw [List.mem_singleton.mp new]
    exact leads.leads i old best inside fresh
  · refine List.forall_mem_append.mpr ⟨fun i old j bound other => ?_, fun i new j bound other => ?_⟩
    · exact leads.leads i old j bound fun inside => other (List.mem_append_left _ inside)
    · rw [List.mem_singleton.mp new]
      exact least j bound (fun inside => other (List.mem_append_left _ inside))
        fun same => other (List.mem_append_right _ (by rw [same]; exact List.mem_singleton_self best))
  · refine List.forall_mem_append.mpr ⟨leads.within, fun i new => ?_⟩
    rw [List.mem_singleton.mp new, Within, ← same]
    exact fits

end Best

-- Whatever the loop takes leads, and where it ends all that is reached was taken.
theorem take_best_leads (order : Order count precedes) (rounds : Nat) : ∀ taken : List Nat,
    Leads count precedes weight need limit base taken →
      let final := takeBest count precedes weight need limit rounds taken (base + (taken.map weight).sum)
      Leads count precedes weight need limit base final ∧ final.length ≤ rounds + taken.length ∧
        ∀ i, Reached count precedes weight need limit (rounds + taken.length) base i → i ∈ final := by
  induction rounds with
  | zero =>
    intro taken leads
    refine ⟨leads, by simp [takeBest], fun i reached => ?_⟩
    by_contra other
    -- All that was taken is ahead of it, so it is ranked behind the last round.
    have sub : taken ⊆ ahead count precedes i := fun j old =>
      mem_ahead.mpr ⟨leads.inside j old, leads.leads j old i reached.inside other⟩
    have many := (List.Nodup.subperm leads.nodup sub).length_le
    have few := reached.rank
    omega
  | succ rounds ih =>
    intro taken leads
    dsimp only
    rw [takeBest]
    cases chosen : bestOf count (fun i => !taken.contains i) precedes with
    | none =>
      dsimp only
      refine ⟨leads, by omega, fun i reached => ?_⟩
      have gone := (best_of_none _ _ _).mp chosen i reached.inside
      simpa using gone
    | some best =>
      obtain ⟨inside, fresh, least⟩ := best_of_rest order chosen
      have same : (taken.map weight).sum = ((ahead count precedes best).map weight).sum :=
        ((ahead_best order leads chosen).map weight).sum_nat.symm
      dsimp only
      by_cases beyond : base + (taken.map weight).sum + need best > limit
      · rw [if_pos beyond]
        refine ⟨leads, by omega, fun i reached => ?_⟩
        have blocked : ¬Within count precedes weight need limit base best := by
          rw [Within, ← same]
          omega
        by_contra other
        by_cases top : i = best
        · exact blocked (top ▸ reached.within)
        · exact blocked (reached.before best (mem_ahead.mpr ⟨inside, least i reached.inside other top⟩))
      · rw [if_neg beyond]
        have next := ih (taken ++ [best]) (leads_snoc order leads chosen (Nat.le_of_not_lt beyond))
        have used : base + ((taken ++ [best]).map weight).sum = base + (taken.map weight).sum + weight best := by
          rw [List.map_append, List.sum_append, List.map_singleton, List.sum_singleton, Nat.add_assoc]
        rw [used, List.length_append, List.length_singleton] at next
        rw [show rounds + 1 + taken.length = rounds + (taken.length + 1) by omega]
        exact next

theorem take_best_iff (order : Order count precedes) (rounds : Nat) :
    (takeBest count precedes weight need limit rounds [] base).Pairwise (fun i j => precedes i j = true) ∧
      ∀ i, i ∈ takeBest count precedes weight need limit rounds [] base ↔
        Reached count precedes weight need limit rounds base i := by
  obtain ⟨leads, few, all⟩ : Leads count precedes weight need limit base (takeBest count precedes weight need limit rounds [] base) ∧
      (takeBest count precedes weight need limit rounds [] base).length ≤ rounds ∧
        ∀ i, Reached count precedes weight need limit rounds base i → i ∈ takeBest count precedes weight need limit rounds [] base :=
    take_best_leads order rounds [] leads_nil
  refine ⟨leads.sorted, fun i => ⟨fun old => ?_, all i⟩⟩
  have inside := leads.inside i old
  have before (j : Nat) (first : j ∈ ahead count precedes i) : j ∈ takeBest count precedes weight need limit rounds [] base := by
    obtain ⟨bound, first⟩ := mem_ahead.mp first
    by_contra other
    have second := leads.leads i old j bound other
    rw [order_asymm order bound inside first] at second
    cases second
  have sub : i :: ahead count precedes i ⊆ takeBest count precedes weight need limit rounds [] base :=
    List.cons_subset.mpr ⟨old, before⟩
  have apart : i ∉ ahead count precedes i := by
    intro own
    have first := (mem_ahead.mp own).2
    rw [order.irrefl i inside] at first
    cases first
  have nodup : (i :: ahead count precedes i).Nodup := List.nodup_cons.mpr ⟨apart, List.nodup_range.filter _⟩
  have many := (List.Nodup.subperm nodup sub).length_le
  rw [List.length_cons] at many
  exact ⟨inside, by omega, leads.within i old, fun j first => leads.within j (before j first)⟩

end Taken

end SamosaChat.Ranking
