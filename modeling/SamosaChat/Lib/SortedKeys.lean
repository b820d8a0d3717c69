import Mathlib.Data.List.Sort

set_option autoImplicit false

namespace SamosaChat.SortedKeys

variable {α β κ : Type} [LinearOrder κ]

def lookup (right : β → κ) (bs : List β) (key : κ) : Option β :=
  bs.find? fun b => decide (right b = key)

def sortOn (key : α → κ) (entries : List α) : List α :=
  entries.insertionSort fun a b => key a ≤ key b

def align (left : α → κ) (right : β → κ) : List α → List β → List (α × Option β)
  | [], _ => []
  | a :: as, bs =>
    let bs := bs.dropWhile fun b => decide (right b < left a)
    (a, bs.head?.filter fun b => decide (right b = left a)) :: align left right as bs

def bisect (keys : List κ) (key : κ) : Nat → Nat → Nat → Option Nat
  | 0, _, _ => none
  | fuel + 1, lo, hi =>
    if lo < hi then
      match keys[lo + (hi - lo) / 2]? with
      | none => none
      | some found =>
        if found = key then some (lo + (hi - lo) / 2)
        else if found < key then bisect keys key fuel (lo + (hi - lo) / 2 + 1) hi
        else bisect keys key fuel lo (lo + (hi - lo) / 2)
    else none

theorem sort_on_perm (key : α → κ) (entries : List α) : (sortOn key entries).Perm entries :=
  List.perm_insertionSort _ entries

theorem sort_on_sorted {key : α → κ} {entries : List α} (once : (entries.map key).Nodup) :
    (sortOn key entries).Pairwise fun a b => key a < key b := by
  have : Std.Total fun a b : α => key a ≤ key b := ⟨fun a b => le_total (key a) (key b)⟩
  have : IsTrans α fun a b => key a ≤ key b := ⟨fun a b c => le_trans⟩
  have ordered := List.pairwise_insertionSort (fun a b : α => key a ≤ key b) entries
  have kept : ((sortOn key entries).map key).Nodup := ((sort_on_perm key entries).map key).nodup_iff.mpr once
  have apart := List.pairwise_map.mp kept
  exact (ordered.and apart).imp fun both => lt_of_le_of_ne both.1 both.2

section Align

variable {left : α → κ} {right : β → κ}

theorem find_drop {bs : List β} {key later : κ} (order : key ≤ later) :
    (bs.dropWhile fun b => decide (right b < key)).find? (fun b => decide (right b = later)) =
      bs.find? fun b => decide (right b = later) := by
  induction bs with
  | nil => rfl
  | cons b rest ih =>
    by_cases less : right b < key
    · have other : right b ≠ later := ne_of_lt (less.trans_le order)
      rw [List.dropWhile_cons_of_pos (by simpa using less), ih, List.find?_cons_of_neg (by simpa using other)]
    · rw [List.dropWhile_cons_of_neg (by simpa using less)]

theorem head_find {bs : List β} {key : κ} (sorted : bs.Pairwise fun b b' => right b < right b')
    (reached : ∀ b ∈ bs.head?, ¬right b < key) :
    bs.head?.filter (fun b => decide (right b = key)) = bs.find? fun b => decide (right b = key) := by
  cases bs with
  | nil => rfl
  | cons b rest =>
    by_cases same : right b = key
    · simp [same]
    · have above : key < right b := lt_of_le_of_ne (not_lt.mp (reached b rfl)) (Ne.symm same)
      have absent : rest.find? (fun b => decide (right b = key)) = none := by
        rw [List.find?_eq_none]
        intro other inside
        have more := (List.pairwise_cons.mp sorted).1 other inside
        simpa using (above.trans more).ne'
      rw [List.find?_cons_of_neg (by simpa using same), absent]
      simp [same]

theorem align_find {as : List α} {bs : List β} (sorted : as.Pairwise fun a a' => left a < left a')
    (sorted' : bs.Pairwise fun b b' => right b < right b') :
    align left right as bs = as.map fun a => (a, lookup right bs (left a)) := by
  unfold lookup
  induction as generalizing bs with
  | nil => rfl
  | cons a as ih =>
    obtain ⟨first, rest⟩ := List.pairwise_cons.mp sorted
    have kept : (bs.dropWhile fun b => decide (right b < left a)).Pairwise fun b b' => right b < right b' :=
      sorted'.sublist (List.dropWhile_sublist _)
    have reached : ∀ b ∈ (bs.dropWhile fun b => decide (right b < left a)).head?, ¬right b < left a := by
      intro b front
      have stop := List.head?_dropWhile_not (fun b => decide (right b < left a)) bs
      rw [Option.mem_def.mp front] at stop
      simpa using stop
    rw [align, head_find kept reached, find_drop (le_refl _), ih rest kept, List.map_cons]
    refine congrArg _ (List.map_congr_left fun a' inside => ?_)
    rw [find_drop (first a' inside).le]

end Align

section Bisect

variable {keys : List κ} {key : κ}

theorem bisect_hit {fuel lo hi i : Nat} (found : bisect keys key fuel lo hi = some i) : keys[i]? = some key := by
  induction fuel generalizing lo hi with
  | zero => cases found
  | succ fuel ih =>
    rw [bisect] at found
    split_ifs at found with open_
    cases here : keys[lo + (hi - lo) / 2]? with
    | none => simp [here] at found
    | some other =>
      simp only [here] at found
      split_ifs at found with same less
      · cases found
        rw [here, same]
      · exact ih found
      · exact ih found

theorem sorted_get {i j : Nat} {a b : κ} (sorted : keys.Pairwise (· < ·)) (here : keys[i]? = some a)
    (there : keys[j]? = some b) (less : i < j) : a < b := by
  obtain ⟨_, rfl⟩ := List.getElem?_eq_some_iff.mp here
  obtain ⟨_, rfl⟩ := List.getElem?_eq_some_iff.mp there
  exact List.pairwise_iff_getElem.mp sorted i j _ _ less

theorem bisect_finds {fuel lo hi i : Nat} (sorted : keys.Pairwise (· < ·)) (here : keys[i]? = some key) (low : lo ≤ i)
    (high : i < hi) (inside : hi ≤ keys.length) (enough : hi - lo ≤ fuel) : bisect keys key fuel lo hi = some i := by
  induction fuel generalizing lo hi with
  | zero => omega
  | succ fuel ih =>
    have mid : lo + (hi - lo) / 2 < keys.length := by omega
    rw [bisect, if_pos (by omega)]
    obtain ⟨found, at_⟩ : ∃ found, keys[lo + (hi - lo) / 2]? = some found := ⟨_, List.getElem?_eq_getElem mid⟩
    simp only [at_]
    rcases Nat.lt_trichotomy (lo + (hi - lo) / 2) i with before | same | after
    · have less := sorted_get sorted at_ here before
      rw [if_neg less.ne, if_pos less]
      exact ih (by omega) high inside (by omega)
    · rw [same, here] at at_
      cases at_
      rw [if_pos rfl, same]
    · have more := sorted_get sorted here at_ after
      rw [if_neg more.ne', if_neg more.not_gt]
      exact ih low after (by omega) (by omega)

theorem bisect_find {entries : List β} {right : β → κ} (sorted : entries.Pairwise fun b b' => right b < right b') :
    (bisect (entries.map right) key entries.length 0 entries.length).bind (entries[·]?) = lookup right entries key := by
  unfold lookup
  have ordered : (entries.map right).Pairwise (· < ·) := List.pairwise_map.mpr sorted
  cases found : entries.find? fun b => decide (right b = key) with
  | none =>
    cases hit : bisect (entries.map right) key entries.length 0 entries.length with
    | none => rfl
    | some i =>
      have here := bisect_hit hit
      rw [List.getElem?_map, Option.map_eq_some_iff] at here
      obtain ⟨b, at_, same⟩ := here
      have other := List.find?_eq_none.mp found b (List.mem_of_getElem? at_)
      exact absurd same (by simpa using other)
  | some b =>
    have same : right b = key := by simpa using List.find?_some found
    obtain ⟨i, early, at_⟩ := List.mem_iff_getElem.mp (List.mem_of_find?_eq_some found)
    have here : (entries.map right)[i]? = some key := by simp [early, at_, same]
    rw [bisect_finds ordered here (Nat.zero_le _) early (by simp) (by simp)]
    simp [early, at_]

end Bisect

end SamosaChat.SortedKeys
