import SamosaChat.Lib.Probing

set_option autoImplicit false

namespace SamosaChat.Probing

open Slots

variable {κ ν : Type}

def keyOf : Option (κ × ν) → Cell κ
  | none => .vacant
  | some (key, _) => .full key

def used : Option (κ × ν) → Nat
  | none => 0
  | some _ => 1

section Latest

variable [DecidableEq κ]

def updated (map : κ → Option ν) (entry : κ × ν) : κ → Option ν :=
  Function.update map entry.1 (some entry.2)

def latest (entries : List (κ × ν)) : κ → Option ν :=
  entries.foldl updated fun _ => none

theorem latest_from (entries : List (κ × ν)) (map : κ → Option ν) (key : κ) :
    entries.foldl updated map key = map key ∧ (∀ value, (key, value) ∉ entries) ∨
      ∃ value, entries.foldl updated map key = some value ∧ (key, value) ∈ entries := by
  induction entries generalizing map with
  | nil => exact .inl ⟨rfl, by simp⟩
  | cons entry entries ih =>
    rcases ih (updated map entry) with ⟨same, absent⟩ | ⟨value, found, inside⟩
    · by_cases here : key = entry.1
      · refine .inr ⟨entry.2, ?_, by simp [here]⟩
        rw [List.foldl_cons, same, updated, here, Function.update_self]
      · refine .inl ⟨?_, fun value inside => ?_⟩
        · rw [List.foldl_cons, same, updated, Function.update_of_ne here]
        · rcases List.mem_cons.mp inside with rfl | later
          · exact here rfl
          · exact absent value later
    · exact .inr ⟨value, found, List.mem_cons_of_mem _ inside⟩

variable {entries : List (κ × ν)} {key : κ} {value : ν}

theorem latest_mem (found : latest entries key = some value) : (key, value) ∈ entries := by
  rcases latest_from entries (fun _ => none) key with ⟨same, _⟩ | ⟨value', found', inside⟩
  · cases same.symm.trans found
  · cases found'.symm.trans found
    exact inside

theorem latest_some (inside : (key, value) ∈ entries) : ∃ value', latest entries key = some value' := by
  rcases latest_from entries (fun _ => none) key with ⟨_, absent⟩ | ⟨value', found, _⟩
  · exact absurd inside (absent value)
  · exact ⟨value', found⟩

theorem latest_distinct (distinct : (entries.map Prod.fst).Nodup)
    (inside : (key, value) ∈ entries) : latest entries key = some value := by
  obtain ⟨value', found⟩ := latest_some inside
  have pair := List.inj_on_of_nodup_map distinct (latest_mem found) inside rfl
  rw [found, (Prod.mk.inj pair).2]

end Latest

structure Table (size : Nat) (path : κ → Nat → Nat) (cells : Nat → Option (κ × ν)) (map : κ → Option ν)
    (count : Nat) : Prop where
  formed : WellFormed size path fun i => keyOf (cells i)
  represents : Represents size cells id map
  few : total size cells used ≤ count

variable {size count : Nat} {path : κ → Nat → Nat} {cells : Nat → Option (κ × ν)} {map : κ → Option ν}

theorem table_empty : Table size path (fun _ => (none : Option (κ × ν))) (fun _ => none) 0 where
  formed := vacant_well_formed fun _ _ => rfl
  represents := represents_empty fun _ _ => rfl
  few := Nat.le_of_eq ((total_zero_iff _ _ _).mpr fun _ _ => rfl)

theorem key_of_full {cell : Option (κ × ν)} {key : κ} (full : keyOf cell = .full key) : ∃ value, cell = some (key, value) := by
  cases cell with
  | none => cases full
  | some entry =>
    cases full
    exact ⟨entry.2, rfl⟩

theorem key_of_vacant {cell : Option (κ × ν)} (free : keyOf cell = .deleted ∨ keyOf cell = .vacant) : cell = none := by
  cases cell with
  | none => rfl
  | some entry => rcases free with free | free <;> cases free

theorem Table.free (table : Table size path cells map count) (room : count < size) : ∃ cell < size, cells cell = none := by
  by_contra full
  push Not at full
  have ones : total size cells used = total size cells fun _ => 1 := by
    refine Finset.sum_congr rfl fun i member => ?_
    cases here : cells i with
    | none => exact absurd here (full i (Finset.mem_range.mp member))
    | some entry => rfl
  have whole : (total size cells fun _ => 1) = size := by simp [total]
  have few := table.few
  omega

theorem Table.absent (table : Table size path cells map count) (key : κ) :
    map key = none ↔ ¬Holds size (fun i => keyOf (cells i)) key := by
  constructor
  · rintro nothing ⟨cell, inside, full⟩
    obtain ⟨value, held⟩ := key_of_full full
    cases nothing.symm.trans ((table.represents key value).mpr ⟨cell, inside, held⟩)
  · intro missing
    cases held : map key with
    | none => rfl
    | some value =>
      obtain ⟨cell, inside, here⟩ := (table.represents key value).mp held
      refine absurd ⟨cell, inside, ?_⟩ missing
      have held' : cells cell = some (key, value) := here
      change keyOf (cells cell) = .full key
      rw [held']
      rfl

theorem key_of_write (cells : Nat → Option (κ × ν)) (cell : Nat) (entry : κ × ν) :
    (fun i => keyOf (write cells cell (some entry) i)) = write (fun i => keyOf (cells i)) cell (.full entry.1) := by
  funext i
  by_cases here : i = cell
  · rw [here, write_same, write_same]
    rfl
  · rw [write_other _ _ _ _ here, write_other _ _ _ _ here]

section Calls

variable [DecidableEq κ]

def get (size : Nat) (path : κ → Nat → Nat) (cells : Nat → Option (κ × ν)) (key : κ) : Option ν :=
  match find size path (fun i => keyOf (cells i)) key with
  | .hit cell => (cells cell).map Prod.snd
  | .miss _ => none

def put (size : Nat) (path : κ → Nat → Nat) (cells : Nat → Option (κ × ν)) (entry : κ × ν) : Nat → Option (κ × ν) :=
  match find size path (fun i => keyOf (cells i)) entry.1 with
  | .hit cell => write cells cell (some entry)
  | .miss (some cell) => write cells cell (some entry)
  | .miss none => cells

section Tables

variable (table : Table size path cells map count)
include table

theorem Table.get (covering : Covering size path) (key : κ) : get size path cells key = map key := by
  unfold Probing.get
  cases found : find size path (fun i => keyOf (cells i)) key with
  | miss free => exact ((table.absent key).mpr (find_miss_absent table.formed key free found)).symm
  | hit cell =>
    obtain ⟨inside, full⟩ := find_hit covering key cell found
    obtain ⟨value, held⟩ := key_of_full full
    simp only [held, Option.map_some]
    exact ((table.represents key value).mpr ⟨cell, inside, held⟩).symm

theorem Table.put_hit {entry : κ × ν} {cell : Nat} (inside : cell < size) (full : keyOf (cells cell) = .full entry.1) :
    Table size path (write cells cell (some entry)) (updated map entry) (count + 1) := by
  obtain ⟨value, held⟩ := key_of_full full
  refine ⟨?_, ?_, ?_⟩
  · have same : (fun i => keyOf (write cells cell (some entry) i)) = fun i => keyOf (cells i) := by
      rw [key_of_write]
      funext i
      by_cases here : i = cell
      · rw [here, write_same, full]
      · rw [write_other _ _ _ _ here]
    rw [same]
    exact table.formed
  · refine represents_write cells table.represents cell inside entry.1 (some entry.2) _ ?_ ?_ rfl
    · intro key other here
      cases held.symm.trans here
      rfl
    · intro i within other value' here
      have here' : keyOf (cells i) = .full entry.1 := by
        change cells i = some (entry.1, value') at here
        rw [here]
        rfl
      exact other (table.formed.unique i within cell inside entry.1 here' full)
  · have balance := total_write size cells used cell (some entry) inside
    rw [held] at balance
    have few := table.few
    simp only [used] at balance
    omega

theorem Table.put_free {entry : κ × ν} {cell : Nat} (inside : cell < size)
    (free : cells cell = none) (missing : ¬Holds size (fun i => keyOf (cells i)) entry.1)
    (chain : ∃ i < size, path entry.1 i = cell ∧ ∀ j < i, keyOf (cells (path entry.1 j)) ≠ .vacant) :
    Table size path (write cells cell (some entry)) (updated map entry) (count + 1) := by
  refine ⟨?_, ?_, ?_⟩
  · rw [key_of_write]
    refine fill_well_formed table.formed entry.1 cell missing (.inr ?_) chain
    rw [free]
    rfl
  · refine represents_write cells table.represents cell inside entry.1 (some entry.2) _ ?_ ?_ rfl
    · intro key value here
      cases free.symm.trans here
    · intro i within _ value here
      refine missing ⟨i, within, ?_⟩
      change cells i = some (entry.1, value) at here
      change keyOf (cells i) = .full entry.1
      rw [here]
      rfl
  · have balance := total_write size cells used cell (some entry) inside
    rw [free] at balance
    have few := table.few
    simp only [used] at balance
    omega

theorem Table.put (covering : Covering size path) (room : count < size)
    (entry : κ × ν) : Table size path (put size path cells entry) (updated map entry) (count + 1) := by
  unfold Probing.put
  cases found : find size path (fun i => keyOf (cells i)) entry.1 with
  | hit cell =>
    obtain ⟨inside, full⟩ := find_hit covering entry.1 cell found
    exact table.put_hit inside full
  | miss free =>
    obtain ⟨cell, inside, empty⟩ := table.free room
    obtain ⟨target, rfl⟩ := find_miss_some covering entry.1 free found cell inside fun other full => by
      rw [empty] at full
      cases full
    obtain ⟨within, usable, chain⟩ := find_miss_free covering entry.1 target found
    exact table.put_free within (key_of_vacant usable) (find_miss_absent table.formed entry.1 _ found) chain

theorem Table.puts (covering : Covering size path) (entries : List (κ × ν)) (room : count + entries.length ≤ size) :
    Table size path (entries.foldl (Probing.put size path) cells) (entries.foldl updated map) (count + entries.length) := by
  induction entries generalizing cells map count with
  | nil => exact table
  | cons entry entries ih =>
    rw [List.length_cons] at room
    have later := ih (table.put covering (by omega) entry) (by omega)
    rwa [Nat.add_right_comm, Nat.add_assoc] at later

theorem Table.ends (covering : Covering size path) (room : count < size) (key : κ) :
    find size path (fun i => keyOf (cells i)) key ≠ .miss none := by
  intro missed
  obtain ⟨cell, inside, empty⟩ := table.free room
  obtain ⟨target, same⟩ := find_miss_some covering key none missed cell inside fun other full => by
    rw [empty] at full
    cases full
  cases same

end Tables

theorem get_puts (covering : Covering size path) (entries : List (κ × ν)) (room : entries.length ≤ size) (key : κ) :
    get size path (entries.foldl (put size path) fun _ => none) key = latest entries key :=
  (table_empty.puts covering entries (by omega)).get covering key

end Calls

end SamosaChat.Probing
