import SamosaChat.Tokenizer.Load

set_option autoImplicit false

namespace SamosaChat.Tokenizer

open Utf8 Probing

variable {m : Hmap} {t : Nat}

def hmPath (m : Hmap) (key : Bytes) (i : Nat) : Nat :=
  (hmSlot m key + i) % m.cap

theorem slot_inside (two : m.cap = 2 ^ t) (key : Bytes) : hmSlot m key < m.cap := by
  have some_ : 0 < m.cap := two ▸ Nat.two_pow_pos t
  have mask : hmSlot m key ≤ (UInt64.ofNat (m.cap - 1)).toNat := by
    rw [hmSlot, UInt64.toNat_and]
    exact Nat.and_le_right
  have cut : (UInt64.ofNat (m.cap - 1)).toNat ≤ m.cap - 1 := by
    rw [UInt64.toNat_ofNat']
    exact Nat.mod_le _ _
  omega

theorem path_covering (two : m.cap = 2 ^ t) : Covering m.cap (hmPath m) :=
  linear_covering (hmSlot m) (two ▸ Nat.two_pow_pos t)

theorem path_next (two : m.cap = 2 ^ t) (key : Bytes) (i : Nat) : (hmPath m key i + 1) &&& (m.cap - 1) = hmPath m key (i + 1) := by
  unfold hmPath
  rw [two, Nat.and_two_pow_sub_one_eq_mod, Nat.mod_add_mod, Nat.add_assoc]

def cellAt : Outcome → Option Nat
  | .hit cell => some cell
  | .miss free => free

theorem walk_search (two : m.cap = 2 ^ t) (key : Bytes) (rounds i : Nat) : hmWalk m key rounds (hmPath m key i) =
      cellAt (search (fun i => keyOf (m.e i)) (hmPath m key) key rounds i none) := by
  induction rounds generalizing i with
  | zero => rfl
  | succ rounds ih =>
    rw [hmWalk, search]
    cases here : m.e (hmPath m key i) with
    | none => rfl
    | some entry =>
      simp only [keyOf]
      by_cases same : entry.1 = key
      · rw [if_pos same, if_pos same]
        rfl
      · rw [if_neg same, if_neg same, path_next two]
        exact ih (i + 1)

theorem walk_find (two : m.cap = 2 ^ t) (key : Bytes) :
    hmWalk m key m.cap (hmSlot m key) = cellAt (Probing.find m.cap (hmPath m) (fun i => keyOf (m.e i)) key) := by
  have start : hmPath m key 0 = hmSlot m key := Nat.mod_eq_of_lt (slot_inside two key)
  rw [← start]
  exact walk_search two key m.cap 0

theorem hm_get_eq (two : m.cap = 2 ^ t) (key : Bytes) : hmGet m key = Probing.get m.cap (hmPath m) m.e key := by
  rw [hmGet, walk_find two, Probing.get]
  cases found : Probing.find m.cap (hmPath m) (fun i => keyOf (m.e i)) key with
  | hit cell => rfl
  | miss free =>
    cases free with
    | none => rfl
    | some cell =>
      obtain ⟨_, usable, _⟩ := find_miss_free (path_covering two) key cell found
      change (m.e cell).map Prod.snd = none
      rw [key_of_vacant usable]
      rfl

theorem hm_put_eq (two : m.cap = 2 ^ t) (entry : Bytes × Nat) :
    hmPut m entry = { m with e := Probing.put m.cap (hmPath m) m.e entry } := by
  rw [hmPut, walk_find two, Probing.put]
  cases found : Probing.find m.cap (hmPath m) (fun i => keyOf (m.e i)) entry.1 with
  | hit cell => rfl
  | miss free => cases free <;> rfl

theorem hm_puts_eq (two : m.cap = 2 ^ t) (entries : List (Bytes × Nat)) :
    entries.foldl hmPut m = { m with e := entries.foldl (Probing.put m.cap (hmPath m)) m.e } := by
  induction entries generalizing m with
  | nil => rfl
  | cons entry entries ih =>
    rw [List.foldl_cons, hm_put_eq two]
    exact ih (m := { m with e := Probing.put m.cap (hmPath m) m.e entry }) two

theorem doubled_two (target rounds t : Nat) : ∃ t', doubled target rounds (2 ^ t) = 2 ^ t' := by
  induction rounds generalizing t with
  | zero => exact ⟨t, rfl⟩
  | succ rounds ih =>
    rw [doubled]
    by_cases more : 2 ^ t < target
    · rw [if_pos more, Nat.shiftLeft_eq, ← Nat.pow_add]
      exact ih (t + 1)
    · exact ⟨t, if_neg more⟩

theorem doubled_large (target rounds vc : Nat) (some_ : 0 < vc) (enough : target ≤ vc + rounds) :
    target ≤ doubled target rounds vc := by
  induction rounds generalizing vc with
  | zero => exact enough
  | succ rounds ih =>
    rw [doubled]
    by_cases more : vc < target
    · rw [if_pos more, Nat.shiftLeft_eq]
      exact ih (vc * 2 ^ 1) (by omega) (by omega)
    · rw [if_neg more]
      omega

theorem capacity_two (len : Nat) : ∃ t, capacity len = 2 ^ t :=
  doubled_two (len * 2) (len * 2) 0

theorem capacity_large (len : Nat) : len * 2 ≤ capacity len :=
  doubled_large (len * 2) (len * 2) 1 Nat.one_pos (by omega)

theorem capacity_room {len n : Nat} (few : n ≤ len) : n < capacity len := by
  obtain ⟨t, two⟩ := capacity_two len
  have some_ := Nat.two_pow_pos t
  have large := capacity_large len
  omega

-- The tables as tok_load fills them, twice as large as their entries are many.
def filled (len : Nat) (entries : List (Bytes × Nat)) : Hmap :=
  entries.foldl hmPut (hmInit (capacity len))

theorem filled_eq (len : Nat) (entries : List (Bytes × Nat)) : filled len entries =
      ⟨capacity len, entries.foldl (Probing.put (capacity len) (hmPath (hmInit (capacity len)))) fun _ => none⟩ := by
  obtain ⟨t, two⟩ := capacity_two len
  exact hm_puts_eq (m := hmInit (capacity len)) two entries

theorem filled_get {len : Nat} {entries : List (Bytes × Nat)} (few : entries.length ≤ len) (key : Bytes) :
    hmGet (filled len entries) key = latest entries key := by
  obtain ⟨t, two⟩ := capacity_two len
  rw [filled_eq, hm_get_eq (t := t) two]
  exact get_puts (path_covering (m := hmInit (capacity len)) two) entries (Nat.le_of_lt (capacity_room few)) key

theorem filled_walk {len : Nat} {entries : List (Bytes × Nat)} (few : entries.length ≤ len) (key : Bytes) :
    ∃ cell, hmWalk (filled len entries) key (filled len entries).cap (hmSlot (filled len entries) key) = some cell := by
  obtain ⟨t, two⟩ := capacity_two len
  have covering : Covering (capacity len) (hmPath (hmInit (capacity len))) :=
    path_covering (m := hmInit (capacity len)) two
  have room := capacity_room few
  have table := table_empty.puts covering entries (by omega)
  have ends := table.ends covering (by omega) key
  rw [filled_eq, walk_find (t := t) two]
  cases found : Probing.find (capacity len) (hmPath (hmInit (capacity len)))
      (fun i => keyOf (entries.foldl (Probing.put (capacity len) (hmPath (hmInit (capacity len)))) (fun _ => none) i)) key with
  | hit cell => exact ⟨cell, congrArg cellAt found⟩
  | miss free =>
    cases free with
    | none => exact absurd found ends
    | some cell => exact ⟨cell, congrArg cellAt found⟩

-- Whatever the collisions are, a lookup ends, and it ends where its key was put last.
theorem filled_reads {len : Nat} {entries : List (Bytes × Nat)} (few : entries.length ≤ len) (key : Bytes) :
    ∃ cell, hmWalk (filled len entries) key (filled len entries).cap (hmSlot (filled len entries) key) = some cell ∧
      ((filled len entries).e cell).map Prod.snd = latest entries key := by
  obtain ⟨cell, walk⟩ := filled_walk few key
  have get := filled_get few key
  rw [hmGet, walk] at get
  exact ⟨cell, walk, get⟩

theorem two_filled_reads : ∃ cell, ((filled 2 [([0x61], 0), ([0x62], 1)]).e cell).map Prod.snd = some 0 := by
  obtain ⟨cell, _, get⟩ := filled_reads (Nat.le_refl [([0x61], 0), ([0x62], 1)].length) [0x61]
  exact ⟨cell, get⟩

end SamosaChat.Tokenizer
