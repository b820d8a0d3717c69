import SamosaChat.Lib.Slots

set_option autoImplicit false

namespace SamosaChat.Probing

open Slots

inductive Cell (κ : Type) where
  | vacant
  | deleted
  | full (key : κ)
deriving DecidableEq

inductive Outcome where
  | hit (cell : Nat)
  | miss (free : Option Nat)
deriving DecidableEq

variable {κ : Type}

def Holds (size : Nat) (cells : Nat → Cell κ) (key : κ) : Prop :=
  ∃ cell < size, cells cell = .full key

structure WellFormed (size : Nat) (path : κ → Nat → Nat) (cells : Nat → Cell κ) : Prop where
  reach : ∀ cell < size, ∀ key, cells cell = .full key →
    ∃ i < size, path key i = cell ∧ ∀ j < i, cells (path key j) ≠ .vacant
  unique : ∀ a < size, ∀ b < size, ∀ key, cells a = .full key → cells b = .full key → a = b

structure Covering (size : Nat) (path : κ → Nat → Nat) : Prop where
  inside : ∀ key i, path key i < size
  reaches : ∀ key, ∀ cell < size, ∃ i < size, path key i = cell

variable {size : Nat} {path : κ → Nat → Nat} {cells : Nat → Cell κ}

theorem vacant_well_formed (empty : ∀ cell < size, cells cell = .vacant) : WellFormed size path cells where
  reach cell inside key full := by simp [empty cell inside] at full
  unique a inside _ _ key full _ := by simp [empty a inside] at full

theorem fill_well_formed (formed : WellFormed size path cells) (key : κ) (target : Nat) (fresh : ¬ Holds size cells key)
    (usable : cells target = .deleted ∨ cells target = .vacant)
    (chain : ∃ i < size, path key i = target ∧ ∀ j < i, cells (path key j) ≠ .vacant) :
    WellFormed size path (write cells target (.full key)) := by
  have kept : ∀ cell, cells cell ≠ .vacant → write cells target (.full key) cell ≠ .vacant := by
    intro cell occupied
    by_cases here : cell = target <;> simp [here, occupied]
  refine ⟨?_, ?_⟩
  · intro cell inside other full
    by_cases here : cell = target
    · subst here
      simp only [write_same, Cell.full.injEq] at full
      subst full
      obtain ⟨i, bound, at_, before⟩ := chain
      exact ⟨i, bound, at_, fun j less => kept _ (before j less)⟩
    · rw [write_other cells target cell _ here] at full
      obtain ⟨i, bound, at_, before⟩ := formed.reach cell inside other full
      exact ⟨i, bound, at_, fun j less => kept _ (before j less)⟩
  · intro a insideA b insideB other fullA fullB
    by_cases hereA : a = target
    · by_cases hereB : b = target
      · rw [hereA, hereB]
      · subst hereA
        simp only [write_same, Cell.full.injEq] at fullA
        rw [write_other cells a b _ hereB] at fullB
        exact absurd ⟨b, insideB, fullA ▸ fullB⟩ fresh
    · rw [write_other cells target a _ hereA] at fullA
      by_cases hereB : b = target
      · subst hereB
        simp only [write_same, Cell.full.injEq] at fullB
        exact absurd ⟨a, insideA, fullB ▸ fullA⟩ fresh
      · rw [write_other cells target b _ hereB] at fullB
        exact formed.unique a insideA b insideB other fullA fullB

theorem clear_well_formed (formed : WellFormed size path cells) (target : Nat) :
    WellFormed size path (write cells target .deleted) := by
  refine ⟨?_, ?_⟩
  · intro cell inside key full
    by_cases here : cell = target
    · simp [here] at full
    · rw [write_other cells target cell _ here] at full
      obtain ⟨i, bound, at_, before⟩ := formed.reach cell inside key full
      refine ⟨i, bound, at_, fun j less => ?_⟩
      by_cases there : path key j = target
      · simp [there]
      · rw [write_other cells target _ _ there]
        exact before j less
  · intro a insideA b insideB key fullA fullB
    by_cases hereA : a = target
    · simp [hereA] at fullA
    · by_cases hereB : b = target
      · simp [hereB] at fullB
      · rw [write_other cells target a _ hereA] at fullA
        rw [write_other cells target b _ hereB] at fullB
        exact formed.unique a insideA b insideB key fullA fullB

theorem well_formed_congr (others : Nat → Cell κ) (covering : Covering size path) (same : ∀ cell < size, cells cell = others cell)
    (formed : WellFormed size path cells) : WellFormed size path others := by
  refine ⟨?_, ?_⟩
  · intro cell inside key full
    obtain ⟨i, bound, at_, before⟩ := formed.reach cell inside key (same cell inside ▸ full)
    exact ⟨i, bound, at_, fun j less => same _ (covering.inside key j) ▸ before j less⟩
  · intro a insideA b insideB key fullA fullB
    exact formed.unique a insideA b insideB key (same a insideA ▸ fullA) (same b insideB ▸ fullB)

theorem linear_covering (start : κ → Nat) (positive : 0 < size) : Covering size (fun key i => (start key + i) % size) where
  inside _ _ := Nat.mod_lt _ positive
  reaches key cell inside := by
    refine ⟨(cell + size - start key % size) % size, Nat.mod_lt _ positive, ?_⟩
    have within : start key % size < size := Nat.mod_lt _ positive
    have sum : start key % size + (cell + size - start key % size) = cell + size := by omega
    change (start key + (cell + size - start key % size) % size) % size = cell
    rw [Nat.add_mod_mod, ← Nat.mod_add_mod, sum, Nat.add_mod_right, Nat.mod_eq_of_lt inside]

def Passed (cells : Nat → Cell κ) (path : Nat → Nat) (key : κ) (limit : Nat) : Prop :=
  ∀ i < limit, cells (path i) ≠ .vacant ∧ cells (path i) ≠ .full key

def FreeSeen (cells : Nat → Cell κ) (path : Nat → Nat) (limit : Nat) : Option Nat → Prop
  | none => ∀ i < limit, cells (path i) ≠ .deleted
  | some cell => ∃ i < limit, path i = cell ∧ cells cell = .deleted

def Answered (cells : Nat → Cell κ) (path : Nat → Nat) (key : κ) (size : Nat) : Outcome → Prop
  | .hit cell => ∃ i < size, path i = cell ∧ cells cell = .full key
  | .miss free => ∃ limit ≤ size, Passed cells path key limit ∧
      (limit < size → cells (path limit) = .vacant) ∧
      match free with
      | none => limit = size ∧ ∀ i < size, cells (path i) ≠ .deleted
      | some cell => ∃ i < size, i ≤ limit ∧ path i = cell ∧ (cells cell = .deleted ∨ cells cell = .vacant)

theorem free_seen_next (cells : Nat → Cell κ) (path : Nat → Nat) (limit : Nat) (free : Option Nat)
    (seen : FreeSeen cells path limit free) (skipped : cells (path limit) ≠ .deleted) : FreeSeen cells path (limit + 1) free := by
  cases free with
  | none =>
    intro i bound
    rcases Nat.lt_succ_iff_lt_or_eq.mp bound with before | here
    · exact seen i before
    · exact here ▸ skipped
  | some cell =>
    obtain ⟨i, bound, at_, marked⟩ := seen
    exact ⟨i, by omega, at_, marked⟩

theorem free_seen_marked (cells : Nat → Cell κ) (path : Nat → Nat) (limit : Nat) (free : Option Nat)
    (seen : FreeSeen cells path limit free) (marked : cells (path limit) = .deleted) :
    FreeSeen cells path (limit + 1) (free.or (some (path limit))) := by
  cases free with
  | none => exact ⟨limit, by omega, rfl, marked⟩
  | some cell =>
    obtain ⟨i, bound, at_, old⟩ := seen
    exact ⟨i, by omega, at_, old⟩

theorem passed_next (cells : Nat → Cell κ) (path : Nat → Nat) (key : κ) (limit : Nat)
    (passed : Passed cells path key limit) (occupied : cells (path limit) ≠ .vacant)
    (other : cells (path limit) ≠ .full key) : Passed cells path key (limit + 1) := by
  intro i bound
  rcases Nat.lt_succ_iff_lt_or_eq.mp bound with before | here
  · exact passed i before
  · subst here
    exact ⟨occupied, other⟩

section Search

variable [DecidableEq κ]

def search (cells : Nat → Cell κ) (path : Nat → Nat) (key : κ) : Nat → Nat → Option Nat → Outcome
  | 0, _, free => .miss free
  | rounds + 1, probe, free =>
    match cells (path probe) with
    | .vacant => .miss (free.or (some (path probe)))
    | .deleted => search cells path key rounds (probe + 1) (free.or (some (path probe)))
    | .full other =>
      if other = key then .hit (path probe)
      else search cells path key rounds (probe + 1) free

theorem search_answers (cells : Nat → Cell κ) (path : Nat → Nat) (key : κ) (size : Nat)
    (rounds probe : Nat) (free : Option Nat) (covered : probe + rounds = size)
    (passed : Passed cells path key probe) (seen : FreeSeen cells path probe free) :
    Answered cells path key size (search cells path key rounds probe free) := by
  induction rounds generalizing probe free with
  | zero =>
    refine ⟨probe, by omega, passed, by omega, ?_⟩
    cases free with
    | none => exact ⟨by omega, fun i bound => seen i (by omega)⟩
    | some cell =>
      obtain ⟨i, bound, at_, marked⟩ := seen
      exact ⟨i, by omega, by omega, at_, .inl marked⟩
  | succ rounds ih =>
    rw [search]
    cases here : cells (path probe) with
    | vacant =>
      refine ⟨probe, by omega, passed, fun _ => here, ?_⟩
      cases free with
      | none => exact ⟨probe, by omega, by omega, rfl, .inr here⟩
      | some cell =>
        obtain ⟨i, bound, at_, marked⟩ := seen
        exact ⟨i, by omega, by omega, at_, .inl marked⟩
    | deleted =>
      exact ih (probe + 1) _ (by omega)
        (passed_next cells path key probe passed (by simp [here]) (by simp [here]))
        (free_seen_marked cells path probe free seen here)
    | full other =>
      by_cases same : other = key
      · subst same
        simp only [if_true]
        exact ⟨probe, by omega, rfl, here⟩
      · simp only [if_neg same]
        exact ih (probe + 1) free (by omega)
          (passed_next cells path key probe passed (by simp [here]) (by simp [here, same]))
          (free_seen_next cells path probe free seen (by simp [here]))

def find (size : Nat) (path : κ → Nat → Nat) (cells : Nat → Cell κ) (key : κ) : Outcome :=
  search cells (path key) key size 0 none

theorem find_answers (size : Nat) (path : κ → Nat → Nat) (cells : Nat → Cell κ) (key : κ) : Answered cells (path key) key size (find size path cells key) :=
  search_answers cells (path key) key size size 0 none (by omega) (fun _ bound => by omega)
    (fun _ bound => by omega)

theorem find_hit (covering : Covering size path) (key : κ) (cell : Nat)
    (found : find size path cells key = .hit cell) : cell < size ∧ cells cell = .full key := by
  have answered := find_answers size path cells key
  rw [found] at answered
  obtain ⟨i, _, at_, full⟩ := answered
  exact ⟨at_ ▸ covering.inside key i, full⟩

theorem find_miss_absent (formed : WellFormed size path cells) (key : κ) (free : Option Nat)
    (missed : find size path cells key = .miss free) : ¬ Holds size cells key := by
  intro ⟨cell, inside, full⟩
  have answered := find_answers size path cells key
  rw [missed] at answered
  obtain ⟨limit, _, passed, stopped, _⟩ := answered
  obtain ⟨i, bound, at_, chain⟩ := formed.reach cell inside key full
  rcases Nat.lt_trichotomy i limit with before | here | after
  · exact (passed i before).2 (at_ ▸ full)
  · subst here
    have vacant := stopped bound
    rw [at_, full] at vacant
    cases vacant
  · exact chain limit after (stopped (by omega))

theorem find_present (covering : Covering size path) (formed : WellFormed size path cells) (key : κ)
    (cell : Nat) (inside : cell < size) (full : cells cell = .full key) : find size path cells key = .hit cell := by
  cases found : find size path cells key with
  | hit other =>
    obtain ⟨bound, same⟩ := find_hit covering key other found
    rw [formed.unique other bound cell inside key same full]
  | miss free => exact absurd ⟨cell, inside, full⟩ (find_miss_absent formed key free found)

theorem find_miss_free (covering : Covering size path) (key : κ) (cell : Nat)
    (missed : find size path cells key = .miss (some cell)) : cell < size ∧ (cells cell = .deleted ∨ cells cell = .vacant) ∧
      ∃ i < size, path key i = cell ∧ ∀ j < i, cells (path key j) ≠ .vacant := by
  have answered := find_answers size path cells key
  rw [missed] at answered
  obtain ⟨limit, _, passed, _, i, bound, before, at_, usable⟩ := answered
  exact ⟨at_ ▸ covering.inside key i, usable, i, bound, at_, fun j less => (passed j (by omega)).1⟩

theorem find_miss_some (covering : Covering size path) (key : κ) (free : Option Nat)
    (missed : find size path cells key = .miss free) (cell : Nat) (inside : cell < size)
    (usable : ∀ other, cells cell ≠ .full other) : ∃ target, free = some target := by
  have answered := find_answers size path cells key
  rw [missed] at answered
  obtain ⟨limit, _, passed, _, last⟩ := answered
  cases free with
  | some target => exact ⟨target, rfl⟩
  | none =>
    obtain ⟨whole, unmarked⟩ := last
    obtain ⟨i, bound, at_⟩ := covering.reaches key cell inside
    have occupied := (passed i (by omega)).1
    have kept := unmarked i bound
    rw [at_] at occupied kept
    cases here : cells cell with
    | vacant => exact absurd here occupied
    | deleted => exact absurd here kept
    | full other => exact absurd here (usable other)

end Search

end SamosaChat.Probing
