import Mathlib.Data.List.Sort
import SamosaChat.Lib.Text

set_option autoImplicit false

namespace SamosaChat.ReadCache

open Utf8 Text

structure FileStat where
  regular : Bool
  size : Nat
  mtime : Int
deriving DecidableEq

structure Listing (α : Type) where
  names : List (Bytes × α)
  distinct : (names.map Prod.fst).Nodup

namespace Listing

variable {α : Type}

def get (listing : Listing α) (name : Bytes) : Option α :=
  (listing.names.find? fun entry => entry.1 = name).map Prod.snd

def remove (listing : Listing α) (name : Bytes) : Listing α where
  names := listing.names.filter fun entry => entry.1 ≠ name
  distinct := (List.filter_sublist.map Prod.fst).nodup listing.distinct

def change (listing : Listing α) (name : Bytes) (f : α → α) : Listing α where
  names := listing.names.map fun entry => (entry.1, if entry.1 = name then f entry.2 else entry.2)
  distinct := by
    rw [List.map_map]
    exact listing.distinct

end Listing

abbrev Shard := Listing (Option FileStat)

abbrev CacheDir := Option (Listing (Option Shard))

def statIn (cache : CacheDir) (shard name : Bytes) : Option FileStat := do
  let root ← cache
  let files ← (← root.get shard)
  (← files.get name)

def unlinked (cache : CacheDir) (shard name : Bytes) : CacheDir :=
  cache.map fun root => root.change shard fun files => files.map fun files => files.remove name

def hidden (name : Bytes) : Bool :=
  name.head? == some 0x2e

def entryName (name : Bytes) : Bool :=
  !hidden name && find (utf8 ".tmp.") name == none && decide (5 ≤ name.length) && name.drop (name.length - 5) == utf8 ".json"

def pinName (name : Bytes) : Bytes :=
  name.take (name.length - 5) ++ utf8 ".pin"

def readCacheTotalBytes : CacheDir → Nat
  | none => 0
  | some root =>
    root.names.foldl (fun total (shard, files) =>
      if hidden shard then total
      else
        match files with
        | none => total
        | some files =>
          files.names.foldl (fun total (name, st) =>
            if !entryName name then total
            else
              match st with
              | none => total
              | some st => if st.regular then total + st.size else total) total) 0

structure RcPruneCandidate where
  shard : Bytes
  name : Bytes
  mtime : Int
  size : Nat
deriving DecidableEq

def rcPruneCmp (a b : RcPruneCandidate) : Int :=
  if a.mtime < b.mtime then -1 else if a.mtime > b.mtime then 1 else 0

structure PruneCalls where
  opensAgain : Bool
  allocates : Nat → Bool
  qsort : (RcPruneCandidate → RcPruneCandidate → Int) → List RcPruneCandidate → List RcPruneCandidate
  unlinks : Bytes → Bytes → Bool

structure Candidates where
  items : List RcPruneCandidate
  cap : Nat

-- Adds an item, none where the array cannot grow.
def Candidates.add (allocates : Nat → Bool) (found : Candidates) (item : RcPruneCandidate) : Option Candidates :=
  if found.items.length = found.cap then
    let nextCap := if found.cap = 0 then 64 else found.cap * 2
    if !allocates nextCap then none else some { items := found.items ++ [item], cap := nextCap }
  else some { found with items := found.items ++ [item] }

def candidates (allocates : Nat → Bool) (cache : CacheDir) (root : Listing (Option Shard)) : Option Candidates :=
  root.names.foldlM (fun found (shard, files) =>
    if hidden shard then some found
    else
      match files with
      | none => some found
      | some files =>
        files.names.foldlM (fun found (name, st) =>
          if !entryName name then some found
          else
            match st with
            | none => some found
            | some st =>
              if !st.regular then some found
              else if (statIn cache shard (pinName name)).isSome then some found
              else found.add allocates { shard := shard, name := name, mtime := st.mtime, size := st.size }) found)
    { items := [], cap := 0 }

def removeItems (unlinks : Bytes → Bytes → Bool) (maxBytes : Int) : List RcPruneCandidate → Int → CacheDir → Nat × CacheDir
  | [], _, cache => (0, cache)
  | item :: items, total, cache =>
    if total > maxBytes then
      if unlinks item.shard item.name then
        let out := removeItems unlinks maxBytes items (total - item.size) (unlinked cache item.shard item.name)
        (out.1 + 1, out.2)
      else removeItems unlinks maxBytes items total cache
    else (0, cache)

def readCachePrune (calls : PruneCalls) (cache : CacheDir) (maxBytes : Int) : Int × CacheDir :=
  let total : Int := readCacheTotalBytes cache
  if total ≤ maxBytes then (0, cache)
  else
    match cache with
    | none => (-1, cache)
    | some root =>
      if !calls.opensAgain then (-1, cache)
      else
        match candidates calls.allocates cache root with
        | none => (-1, cache)
        | some found =>
          let out := removeItems calls.unlinks maxBytes (calls.qsort rcPruneCmp found.items) total cache
          (out.1, out.2)

def entryAt (shard name : Bytes) (st : Option FileStat) : Option RcPruneCandidate :=
  if !entryName name then none
  else st.bind fun st => if st.regular then some { shard := shard, name := name, mtime := st.mtime, size := st.size } else none

def shardEntries (shard : Bytes) : Option Shard → List RcPruneCandidate
  | none => []
  | some files => if hidden shard then [] else files.names.filterMap fun entry => entryAt shard entry.1 entry.2

def entries : CacheDir → List RcPruneCandidate
  | none => []
  | some root => root.names.flatMap fun entry => shardEntries entry.1 entry.2

def totalSize (items : List RcPruneCandidate) : Nat :=
  (items.map RcPruneCandidate.size).sum

def Pinned (cache : CacheDir) (item : RcPruneCandidate) : Prop :=
  (statIn cache item.shard (pinName item.name)).isSome = true

instance (cache : CacheDir) (item : RcPruneCandidate) : Decidable (Pinned cache item) :=
  inferInstanceAs (Decidable (_ = true))

theorem total_size_append (first second : List RcPruneCandidate) :
    totalSize (first ++ second) = totalSize first + totalSize second := by
  rw [totalSize, List.map_append, List.sum_append]
  rfl

section Walks

variable {cache : CacheDir} {shard : Bytes} {allocates : Nat → Bool}

theorem walk_total {β : Type} {step : Nat → β → Nat} {listed : β → List RcPruneCandidate}
    (each : ∀ total entry, step total entry = total + totalSize (listed entry)) (names : List β) (total : Nat) :
    names.foldl step total = total + totalSize (names.flatMap listed) := by
  induction names generalizing total with
  | nil => rfl
  | cons entry names ih =>
    rw [List.foldl_cons, ih, each, List.flatMap_cons, total_size_append, Nat.add_assoc]

theorem total_bytes_eq (cache : CacheDir) : readCacheTotalBytes cache = totalSize (entries cache) := by
  cases cache with
  | none => rfl
  | some root =>
    refine (walk_total (fun total entry => ?_) root.names 0).trans (Nat.zero_add _)
    obtain ⟨shard, files⟩ := entry
    cases aside : hidden shard with
    | true => cases files <;> simp [shardEntries, aside, totalSize]
    | false =>
      cases files with
      | none => simp [shardEntries, totalSize]
      | some files =>
        simp only [aside, shardEntries, Bool.false_eq_true, if_false, List.filterMap_eq_flatMap_toList]
        refine walk_total (fun total entry => ?_) files.names total
        obtain ⟨name, st⟩ := entry
        cases published : entryName name with
        | false => simp [entryAt, published, totalSize]
        | true =>
          cases st with
          | none => simp [entryAt, published, totalSize]
          | some st => cases regular : st.regular <;> simp [entryAt, published, regular, totalSize]

theorem add_items {found found' : Candidates} {item : RcPruneCandidate} (added : found.add allocates item = some found') :
    found'.items = found.items ++ [item] := by
  unfold Candidates.add at added
  dsimp only at added
  split_ifs at added <;> · cases added; rfl

theorem walk_items {β : Type} {step : Candidates → β → Option Candidates} {listed : β → List RcPruneCandidate}
    (each : ∀ found found' entry, step found entry = some found' → found'.items = found.items ++ listed entry)
    (names : List β) {found found' : Candidates} (walked : names.foldlM step found = some found') :
    found'.items = found.items ++ names.flatMap listed := by
  induction names generalizing found with
  | nil =>
    cases walked
    exact (List.append_nil _).symm
  | cons entry names ih =>
    rw [List.foldlM_cons] at walked
    obtain ⟨next, first, rest⟩ := Option.bind_eq_some_iff.mp walked
    rw [ih rest, each _ _ _ first, List.flatMap_cons, List.append_assoc]

theorem candidates_eq {root : Listing (Option Shard)} {found : Candidates} (walked : candidates allocates cache root = some found) :
    found.items = (entries (some root)).filter fun item => ¬Pinned cache item := by
  rw [entries, List.filter_flatMap]
  refine walk_items (fun found found' entry first => ?_) root.names walked
  obtain ⟨shard, files⟩ := entry
  cases aside : hidden shard with
  | true =>
    simp only [aside, if_true] at first
    cases first
    cases files <;> simp [shardEntries, aside]
  | false =>
    cases files with
    | none =>
      simp only [aside, Bool.false_eq_true, if_false] at first
      cases first
      simp [shardEntries]
    | some files =>
      simp only [aside, Bool.false_eq_true, if_false] at first
      simp only [shardEntries, aside, Bool.false_eq_true, if_false, List.filterMap_eq_flatMap_toList, List.filter_flatMap]
      refine walk_items (fun found found' entry taken => ?_) files.names first
      obtain ⟨name, st⟩ := entry
      cases published : entryName name with
      | false =>
        simp only [published, Bool.not_false, if_true, Option.some.injEq] at taken
        simp [entryAt, published, taken]
      | true =>
        cases st with
        | none =>
          simp only [published, Bool.not_true, Bool.false_eq_true, if_false, Option.some.injEq] at taken
          simp [entryAt, published, taken]
        | some st =>
          by_cases regular : st.regular = true
          · by_cases pin : (statIn cache shard (pinName name)).isSome = true
            · simp only [published, regular, pin, Bool.not_true, Bool.false_eq_true, if_false, if_true, Option.some.injEq] at taken
              have there := Option.isSome_iff_ne_none.mp pin
              simp [entryAt, published, regular, taken, Pinned, there]
            · simp only [published, regular, pin, Bool.not_true, Bool.false_eq_true, if_false] at taken
              have absent := Option.not_isSome_iff_eq_none.mp pin
              simp [entryAt, published, regular, add_items taken, Pinned, absent]
          · simp only [published, regular, Bool.not_true, Bool.not_false, Bool.false_eq_true, if_false, if_true,
              Option.some.injEq] at taken
            simp [entryAt, published, regular, taken]

end Walks

theorem get_remove {α : Type} (listing : Listing α) (name other : Bytes) :
    (listing.remove name).get other = if other = name then none else listing.get other := by
  rw [Listing.get, Listing.remove]
  dsimp only
  rw [List.find?_filter]
  by_cases same : other = name
  · rw [if_pos same, same, Option.map_eq_none_iff, List.find?_eq_none]
    simp
  · rw [if_neg same, Listing.get]
    congr 2
    funext entry
    by_cases here : entry.1 = other
    · simp [here, same]
    · simp [here]

theorem get_change {α : Type} (listing : Listing α) (name other : Bytes) (f : α → α) :
    (listing.change name f).get other = if other = name then (listing.get other).map f else listing.get other := by
  rw [Listing.get, Listing.get, Listing.change]
  dsimp only
  rw [List.find?_map, Option.map_map]
  change Option.map _ (listing.names.find? fun entry => decide (entry.1 = other)) = _
  cases found : listing.names.find? fun entry => decide (entry.1 = other) with
  | none => simp
  | some entry =>
    have here : entry.1 = other := by simpa using List.find?_some found
    subst here
    by_cases named : entry.1 = name <;> simp [named]

theorem stat_unlinked (cache : CacheDir) (shard name : Bytes) (shard' name' : Bytes) :
    statIn (unlinked cache shard name) shard' name' =
      if shard' = shard ∧ name' = name then none else statIn cache shard' name' := by
  cases cache with
  | none => simp [statIn, unlinked]
  | some root =>
    simp only [statIn, unlinked, Option.map_some, Option.bind_eq_bind, Option.bind_some, get_change]
    by_cases here : shard' = shard
    · rw [if_pos here]
      cases root.get shard' with
      | none => simp
      | some files =>
        cases files with
        | none => simp
        | some files =>
          simp only [Option.map_some, Option.bind_some, get_remove]
          by_cases named : name' = name
          · simp [here, named]
          · simp [named]
    · simp [here]

def RcPruneCandidate.key (item : RcPruneCandidate) : Bytes × Bytes :=
  (item.shard, item.name)

theorem entry_key {shard name : Bytes} {st : Option FileStat} {item : RcPruneCandidate}
    (found : entryAt shard name st = some item) : item.key = (shard, name) ∧ entryName name = true := by
  unfold entryAt at found
  split_ifs at found with skipped
  obtain ⟨st, _, item_⟩ := Option.bind_eq_some_iff.mp found
  split_ifs at item_
  cases item_
  exact ⟨rfl, by simpa using skipped⟩

theorem shard_entry_key {shard : Bytes} {files : Option Shard} {item : RcPruneCandidate}
    (inside : item ∈ shardEntries shard files) : item.shard = shard ∧ entryName item.name = true := by
  cases files with
  | none => cases inside
  | some files =>
    rw [shardEntries] at inside
    split_ifs at inside
    · cases inside
    · obtain ⟨entry, _, found⟩ := List.mem_filterMap.mp inside
      obtain ⟨key, published⟩ := entry_key found
      rw [← (Prod.mk.inj key).2] at published
      exact ⟨(Prod.mk.inj key).1, published⟩

theorem entries_named {cache : CacheDir} {item : RcPruneCandidate} (inside : item ∈ entries cache) : entryName item.name = true := by
  cases cache with
  | none => cases inside
  | some root =>
    obtain ⟨entry, _, found⟩ := List.mem_flatMap.mp inside
    exact (shard_entry_key found).2

theorem shard_unlinked (shard name : Bytes) (files : Option Shard) :
    shardEntries shard (files.map fun files => files.remove name) =
      (shardEntries shard files).filter fun item => item.key ≠ (shard, name) := by
  cases files with
  | none => rfl
  | some files =>
    rw [Option.map_some, shardEntries, shardEntries]
    split_ifs
    · rfl
    · rw [List.filter_filterMap, Listing.remove]
      dsimp only
      rw [List.filterMap_filter]
      congr 1
      funext entry
      cases found : entryAt shard entry.1 entry.2 with
      | none => simp
      | some item =>
        have key := (entry_key found).1
        by_cases here : entry.1 = name <;> simp [key, here, Option.filter]

theorem entries_unlinked (cache : CacheDir) (shard name : Bytes) :
    entries (unlinked cache shard name) = (entries cache).filter fun item => item.key ≠ (shard, name) := by
  cases cache with
  | none => rfl
  | some root =>
    rw [unlinked, Option.map_some, entries, entries, Listing.change, List.filter_flatMap, List.flatMap_map]
    congr 1
    funext entry
    dsimp only [Function.comp]
    by_cases here : entry.1 = shard
    · rw [if_pos here, here]
      exact shard_unlinked shard name entry.2
    · rw [if_neg here, List.filter_eq_self.mpr]
      intro item inside
      rw [decide_eq_true_eq]
      rintro same
      exact here ((shard_entry_key inside).1.symm.trans (Prod.mk.inj same).1)

theorem entries_distinct (cache : CacheDir) : (entries cache).Pairwise fun a b => a.key ≠ b.key := by
  cases cache with
  | none => exact List.Pairwise.nil
  | some root =>
    rw [entries, List.pairwise_flatMap]
    constructor
    · rintro ⟨shard, files⟩ _
      cases files with
      | none => exact List.Pairwise.nil
      | some files =>
        dsimp only
        rw [shardEntries]
        split_ifs
        · exact List.Pairwise.nil
        · rw [List.pairwise_filterMap]
          refine (List.pairwise_map.mp files.distinct).imp ?_
          intro entry other apart a first b second same
          rw [(entry_key first).1, (entry_key second).1] at same
          exact apart (Prod.mk.inj same).2
    · refine (List.pairwise_map.mp root.distinct).imp ?_
      intro entry other apart a first b second same
      have shard := (Prod.mk.inj same).1
      rw [(shard_entry_key first).1, (shard_entry_key second).1] at shard
      exact apart shard

def unlinkAll (cache : CacheDir) (items : List RcPruneCandidate) : CacheDir :=
  items.foldl (fun cache item => unlinked cache item.shard item.name) cache

theorem stat_unlink_all (items : List RcPruneCandidate) (cache : CacheDir) (shard name : Bytes) :
    statIn (unlinkAll cache items) shard name =
      if (shard, name) ∈ items.map RcPruneCandidate.key then none else statIn cache shard name := by
  induction items generalizing cache with
  | nil => rfl
  | cons item items ih =>
    rw [unlinkAll, List.foldl_cons, ← unlinkAll, ih, stat_unlinked, List.map_cons]
    by_cases later : (shard, name) ∈ items.map RcPruneCandidate.key
    · rw [if_pos later, if_pos (List.mem_cons_of_mem _ later)]
    · rw [if_neg later]
      by_cases here : shard = item.shard ∧ name = item.name
      · rw [if_pos here, if_pos (by rw [here.1, here.2]; exact List.mem_cons_self)]
      · rw [if_neg here, if_neg]
        intro inside
        rcases List.mem_cons.mp inside with same | rest
        · exact here (Prod.mk.inj same)
        · exact later rest

theorem entries_unlink_all (items : List RcPruneCandidate) (cache : CacheDir) :
    entries (unlinkAll cache items) = (entries cache).filter fun item => item.key ∉ items.map RcPruneCandidate.key := by
  induction items generalizing cache with
  | nil => exact (List.filter_eq_self.mpr fun _ _ => by simp).symm
  | cons item items ih =>
    rw [unlinkAll, List.foldl_cons, ← unlinkAll, ih, entries_unlinked, List.filter_filter]
    congr 1
    funext other
    rw [List.map_cons, ← Bool.decide_and, decide_eq_decide, List.mem_cons, not_or, and_comm]
    rfl

-- By induction on the items: they are removed from the front, and each one only while the total is too large.
theorem remove_items_prefix {unlinks : Bytes → Bytes → Bool} {maxBytes : Int} (items : List RcPruneCandidate)
    (works : ∀ item ∈ items, unlinks item.shard item.name = true) (total : Int) (cache : CacheDir) :
    ∃ k ≤ items.length, removeItems unlinks maxBytes items total cache = (k, unlinkAll cache (items.take k)) ∧
      (k < items.length → total - totalSize (items.take k) ≤ maxBytes) ∧
      ∀ j < k, maxBytes < total - totalSize (items.take j) := by
  induction items generalizing total cache with
  | nil => exact ⟨0, Nat.le_refl _, rfl, fun more => absurd more (Nat.not_lt_zero _), fun _ less => absurd less (Nat.not_lt_zero _)⟩
  | cons item items ih =>
    rw [removeItems]
    by_cases large : total > maxBytes
    · rw [if_pos large, if_pos (works item List.mem_cons_self)]
      obtain ⟨k, most, removed, enough, needed⟩ := ih (fun other inside => works other (List.mem_cons_of_mem _ inside))
        (total - item.size) (unlinked cache item.shard item.name)
      have size (j : Nat) : total - totalSize ((item :: items).take (j + 1)) = total - item.size - totalSize (items.take j) := by
        rw [List.take_succ_cons, totalSize, List.map_cons, List.sum_cons, ← totalSize]
        omega
      refine ⟨k + 1, Nat.succ_le_succ most, ?_, fun more => ?_, fun j less => ?_⟩
      · rw [removed]
        rfl
      · rw [size]
        exact enough (Nat.lt_of_succ_lt_succ more)
      · cases j with
        | zero =>
          rw [List.take_zero]
          simpa [totalSize] using large
        | succ j =>
          rw [size]
          exact needed j (Nat.lt_of_succ_lt_succ less)
    · rw [if_neg large]
      refine ⟨0, Nat.zero_le _, rfl, fun _ => ?_, fun _ less => absurd less (Nat.not_lt_zero _)⟩
      rw [List.take_zero]
      simpa [totalSize] using large

structure Pruned (cache after : CacheDir) (maxBytes : Int) (removed : List RcPruneCandidate) : Prop where
  gone : (entries cache).Perm (removed ++ entries after)
  others : ∀ shard name, statIn after shard name =
    if (shard, name) ∈ removed.map RcPruneCandidate.key then none else statIn cache shard name
  published : ∀ item ∈ removed, entryName item.name = true
  unpinned : ∀ item ∈ removed, ¬Pinned cache item
  oldest : ∀ kept ∈ entries after, ¬Pinned after kept → ∀ item ∈ removed, item.mtime ≤ kept.mtime
  enough : (totalSize (entries after) : Int) ≤ maxBytes ∨ ∀ kept ∈ entries after, Pinned after kept
  needed : ∀ item, removed.getLast? = some item → maxBytes < totalSize (entries after) + item.size

theorem pin_not_entry (name : Bytes) : entryName (pinName name) = false := by
  cases published : entryName (pinName name) with
  | false => rfl
  | true =>
    simp only [entryName, Bool.and_eq_true, beq_iff_eq] at published
    have json : utf8 ".json" <:+ pinName name := published.2 ▸ List.drop_suffix _ _
    have pin : utf8 ".pin" <:+ pinName name := List.suffix_append _ _
    exact absurd (List.suffix_of_suffix_length_le pin json (by decide)) (by decide)

theorem cmp_order {a b : RcPruneCandidate} (order : rcPruneCmp a b ≤ 0) : a.mtime ≤ b.mtime := by
  unfold rcPruneCmp at order
  split_ifs at order with less more
  · exact Int.le_of_lt less
  · omega
  · omega

section Removal

variable {cache : CacheDir} {maxBytes : Int} {removed sorted : List RcPruneCandidate}

theorem key_inside (inside : ∀ item ∈ removed, item ∈ entries cache) {item : RcPruneCandidate}
    (here : item ∈ entries cache) : item.key ∈ removed.map RcPruneCandidate.key ↔ item ∈ removed := by
  constructor
  · intro named
    obtain ⟨other, among, same⟩ := List.mem_map.mp named
    have once : ((entries cache).map RcPruneCandidate.key).Nodup := List.pairwise_map.mpr (entries_distinct cache)
    exact List.inj_on_of_nodup_map once (inside other among) here same ▸ among
  · exact List.mem_map_of_mem

theorem entries_nodup (cache : CacheDir) : (entries cache).Nodup :=
  (entries_distinct cache).imp fun apart same => apart (congrArg RcPruneCandidate.key same)

theorem entries_left (inside : ∀ item ∈ removed, item ∈ entries cache) :
    entries (unlinkAll cache removed) = (entries cache).filter fun item => item ∉ removed := by
  rw [entries_unlink_all]
  apply List.filter_congr
  intro item here
  rw [decide_eq_decide, not_iff_not]
  exact key_inside inside here

theorem removed_gone (once : removed.Nodup) (inside : ∀ item ∈ removed, item ∈ entries cache) :
    (entries cache).Perm (removed ++ entries (unlinkAll cache removed)) := by
  have among : removed.Perm ((entries cache).filter fun item => item ∈ removed) := by
    rw [List.perm_ext_iff_of_nodup once ((entries_nodup cache).filter _)]
    intro item
    rw [List.mem_filter, decide_eq_true_eq]
    exact ⟨fun here => ⟨inside item here, here⟩, fun both => both.2⟩
  have parts := List.filter_append_perm (fun item => decide (item ∈ removed)) (entries cache)
  rw [entries_left inside]
  refine parts.symm.trans ((among.symm.append_right _).trans ?_)
  simp

theorem total_perm {first second : List RcPruneCandidate} (perm : first.Perm second) : totalSize first = totalSize second :=
  (perm.map RcPruneCandidate.size).sum_nat

theorem pinned_left (inside : ∀ item ∈ removed, item ∈ entries cache) (item : RcPruneCandidate) :
    Pinned (unlinkAll cache removed) item ↔ Pinned cache item := by
  rw [Pinned, Pinned, stat_unlink_all, if_neg]
  intro named
  obtain ⟨other, among, same⟩ := List.mem_map.mp named
  have published := entries_named (inside other among)
  rw [(Prod.mk.inj same).2, pin_not_entry] at published
  cases published

theorem prefix_pruned {k : Nat} (perm : sorted.Perm ((entries cache).filter fun item => ¬Pinned cache item))
    (ordered : sorted.Pairwise fun a b => a.mtime ≤ b.mtime)
    (enough : k < sorted.length → (totalSize (entries cache) : Int) - totalSize (sorted.take k) ≤ maxBytes)
    (needed : ∀ j < k, maxBytes < (totalSize (entries cache) : Int) - totalSize (sorted.take j)) :
    Pruned cache (unlinkAll cache (sorted.take k)) maxBytes (sorted.take k) := by
  have among {item : RcPruneCandidate} : item ∈ sorted ↔ item ∈ entries cache ∧ ¬Pinned cache item := by
    rw [perm.mem_iff, List.mem_filter, decide_eq_true_eq]
  have once : sorted.Nodup := perm.nodup_iff.mpr ((entries_nodup cache).filter _)
  have inside : ∀ item ∈ sorted.take k, item ∈ entries cache := fun item here => (among.mp (List.mem_of_mem_take here)).1
  have gone := removed_gone (once.sublist (List.take_sublist k sorted)) inside
  have sizes := total_perm gone
  rw [total_size_append] at sizes
  have late : ∀ kept ∈ entries (unlinkAll cache (sorted.take k)), ¬Pinned cache kept → kept ∈ sorted.drop k := by
    intro kept here free
    rw [entries_left inside, List.mem_filter, decide_eq_true_eq] at here
    have candidate := among.mpr ⟨here.1, free⟩
    rw [← List.take_append_drop k sorted] at candidate
    exact (List.mem_append.mp candidate).resolve_left here.2
  refine ⟨gone, stat_unlink_all _ _, fun item here => entries_named (inside item here),
    fun item here => (among.mp (List.mem_of_mem_take here)).2, ?_, ?_, ?_⟩
  · intro kept here free item early
    rw [pinned_left inside] at free
    exact ordered.rel_of_mem_take_of_mem_drop early (late kept here free)
  · by_cases more : k < sorted.length
    · refine .inl ?_
      have := enough more
      omega
    · refine .inr fun kept here => ?_
      by_contra free
      rw [pinned_left inside] at free
      have never := late kept here free
      rw [List.drop_eq_nil_of_le (Nat.le_of_not_lt more)] at never
      cases never
  · intro item last
    obtain ⟨early, shape⟩ := List.getLast?_eq_some_iff.mp last
    have length : early.length < k := by
      have whole := congrArg List.length shape
      rw [List.length_take, List.length_append, List.length_singleton] at whole
      omega
    have front : sorted.take early.length = early := by
      have cut := congrArg (List.take early.length) shape
      rwa [List.take_take, Nat.min_eq_left (Nat.le_of_lt length), List.take_left] at cut
    have over_ := needed early.length length
    rw [front] at over_
    rw [shape, total_size_append] at sizes
    have one : totalSize [item] = item.size := rfl
    rw [shape]
    omega

end Removal

-- The oldest unpinned entries go, no more of them than needed, however qsort orders entries of one time.
theorem prune_oldest_first (calls : PruneCalls) (cache : CacheDir) (maxBytes : Int) (after : CacheDir) (r : Int)
    (sorts : ∀ items, (calls.qsort rcPruneCmp items).Perm items ∧
      (calls.qsort rcPruneCmp items).Pairwise fun a b => rcPruneCmp a b ≤ 0)
    (unlinks : ∀ item ∈ entries cache, calls.unlinks item.shard item.name = true)
    (ran : readCachePrune calls cache maxBytes = (r, after)) (counted : 0 ≤ r) :
    ∃ removed : List RcPruneCandidate, (removed.length : Int) = r ∧ Pruned cache after maxBytes removed := by
  unfold readCachePrune at ran
  rw [total_bytes_eq] at ran
  dsimp only at ran
  by_cases small : (totalSize (entries cache) : Int) ≤ maxBytes
  · rw [if_pos small] at ran
    cases ran
    refine ⟨[], rfl, .refl _, fun _ _ => rfl, ?_, ?_, ?_, .inl small, ?_⟩
    · exact fun _ none_ => nomatch none_
    · exact fun _ none_ => nomatch none_
    · exact fun _ _ _ _ none_ => nomatch none_
    · exact fun _ none_ => nomatch none_
  · rw [if_neg small] at ran
    cases cache with
    | none =>
      cases ran
      omega
    | some root =>
      dsimp only at ran
      by_cases opens : calls.opensAgain = true
      · rw [if_neg (by simp [opens])] at ran
        cases walked : candidates calls.allocates (some root) root with
        | none =>
          rw [walked] at ran
          cases ran
          omega
        | some found =>
          rw [walked] at ran
          dsimp only at ran
          obtain ⟨perm, ordered⟩ := sorts found.items
          have items := candidates_eq walked
          obtain ⟨k, most, removed, enough, needed⟩ := remove_items_prefix (calls.qsort rcPruneCmp found.items)
            (fun item inside => unlinks item (by
              rw [perm.mem_iff, items] at inside
              exact (List.mem_filter.mp inside).1)) (totalSize (entries (some root))) (some root)
          rw [removed] at ran
          cases ran
          refine ⟨(calls.qsort rcPruneCmp found.items).take k, ?_, ?_⟩
          · rw [List.length_take, Nat.min_eq_left most]
          · exact prefix_pruned (items ▸ perm) (ordered.imp cmp_order) enough needed
      · rw [if_pos (by simpa using opens)] at ran
        cases ran
        omega

def threeEntries : CacheDir :=
  some
    { names := [(utf8 "ab", some
          { names := [(utf8 ".lock", some ⟨true, 0, 1⟩), (utf8 "abc.json", some ⟨true, 30, 20⟩),
              (utf8 "abd.json", some ⟨true, 30, 10⟩), (utf8 "abd.pin", some ⟨true, 0, 10⟩),
              (utf8 "abe.json", some ⟨true, 50, 30⟩), (utf8 "abe.json.tmp.7", some ⟨true, 9, 5⟩)]
            distinct := by decide +kernel })]
      distinct := by decide +kernel }

def inOrder : PruneCalls where
  opensAgain := true
  allocates _ := true
  qsort cmp items := items.insertionSort fun a b => cmp a b ≤ 0
  unlinks _ _ := true

theorem cmp_total (a b : RcPruneCandidate) : rcPruneCmp a b ≤ 0 ∨ rcPruneCmp b a ≤ 0 := by
  unfold rcPruneCmp
  split_ifs <;> omega

theorem cmp_trans {a b c : RcPruneCandidate} (first : rcPruneCmp a b ≤ 0) (second : rcPruneCmp b c ≤ 0) : rcPruneCmp a c ≤ 0 := by
  have early := cmp_order first
  have late := cmp_order second
  unfold rcPruneCmp
  split_ifs <;> omega

theorem in_order_sorts (items : List RcPruneCandidate) : (inOrder.qsort rcPruneCmp items).Perm items ∧
    (inOrder.qsort rcPruneCmp items).Pairwise fun a b => rcPruneCmp a b ≤ 0 := by
  have : Std.Total fun a b => rcPruneCmp a b ≤ 0 := ⟨cmp_total⟩
  have : IsTrans RcPruneCandidate fun a b => rcPruneCmp a b ≤ 0 := ⟨fun _ _ _ => cmp_trans⟩
  exact ⟨List.perm_insertionSort _ items, List.pairwise_insertionSort _ items⟩

theorem prune_three_entries : (readCachePrune inOrder threeEntries 90).1 = 1 ∧
    ∃ removed : List RcPruneCandidate, (removed.length : Int) = 1 ∧
      Pruned threeEntries (readCachePrune inOrder threeEntries 90).2 90 removed := by
  have count : (readCachePrune inOrder threeEntries 90).1 = 1 := by decide +kernel
  have pair {out : Int × CacheDir} (first : out.1 = 1) : out = (1, out.2) := by rw [← first]
  exact ⟨count, prune_oldest_first inOrder threeEntries 90 _ 1 in_order_sorts (fun _ _ => rfl) (pair count) (by decide)⟩

end SamosaChat.ReadCache
