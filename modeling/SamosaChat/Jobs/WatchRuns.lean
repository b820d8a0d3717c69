import SamosaChat.Jobs.WatchState
import SamosaChat.Lib.Runs

set_option autoImplicit false

namespace SamosaChat.Jobs

open Utf8 Text Json Durable SortedKeys Runs

def appeared (before now : List WatchEntry) : List WatchEntry :=
  now.filter fun entry => before.all fun old => old.path ≠ entry.path

def altered (before now : List WatchEntry) : List WatchEntry :=
  now.filter fun entry => before.any fun old => old.path = entry.path && !sameIdentity entry old

def renewed (before now : List WatchEntry) : List WatchEntry :=
  now.filter fun entry =>
    before.all (fun old => old.path ≠ entry.path) ||
      before.any fun old => old.path = entry.path && !sameIdentity entry old

def completeInventory (poll : WatchPoll) : Option Inventory := do
  let inventory ← readInventory (← poll.output)
  if inventory.done = true ∧ inventory.incomplete = false then some inventory else none

structure Reported (before now : List WatchEntry) (recipe : Bytes) (report : WatchReport) : Prop where
  added : report.added = (appeared before now).length
  changed : report.changed = (altered before now).length
  removed : report.removed = (appeared now before).length
  processed : report.processed = (renewed before now).length
  items : recipe = utf8 "classify_inbox" →
    ∃ items, report.items = some items ∧ items.Perm ((renewed before now).map inboxItem)
  types : recipe = utf8 "folder_report" →
    ∃ groups, report.byType = some groups ∧ (groups.map Prod.snd).sum = report.processed

structure TakesStock (report : WatchReport) : Prop where
  added : report.added = 0
  changed : report.changed = 0
  removed : report.removed = 0
  processed : report.processed = 0

def Saved (after : Option Bytes) (now : List WatchEntry) : Prop :=
  ∃ text entries, after = some text ∧ readState text = some entries ∧ entries.Perm now

structure Exact (before : List WatchEntry) (poll : WatchPoll) (file : Option Bytes) : Prop where
  kept : completeInventory poll = none → jobsWatchDelta poll file = (none, file)
  told : ∀ inventory, completeInventory poll = some inventory →
    ∃ report, (jobsWatchDelta poll file).1 = some report ∧ Saved (jobsWatchDelta poll file).2 inventory.files ∧
      (poll.baseline = true → TakesStock report) ∧
      (poll.baseline = false → Reported before inventory.files poll.recipe report)

structure WatchWorld where
  last : List WatchEntry
  file : Option Bytes

def newWatch : WatchWorld :=
  { last := [], file := none }

def pollWatch (world : WatchWorld) (poll : WatchPoll) : WatchWorld :=
  { last := ((completeInventory poll).map Inventory.files).getD world.last
    file := (jobsWatchDelta poll world.file).2 }

structure Works (calls : EventCalls) : Prop where
  opens : calls.opens = true
  stats : calls.stats = true
  allocates : calls.allocates = true
  reads : calls.reads = true
  writes : (calls.names && calls.creates && calls.writes && calls.syncs && calls.closes && calls.renames) = true

structure WatchGood (world : WatchWorld) (poll : WatchPoll) : Prop where
  works : Works poll.calls
  state : ∀ content, world.file = some content → content.length ≤ stateMax
  output : ∀ output, poll.output = some output → output.length < inventoryMax
  recorded : ∀ inventory, completeInventory poll = some inventory → ∀ entry ∈ inventory.files, Recorded entry
  once : ∀ inventory, completeInventory poll = some inventory → (inventory.files.map WatchEntry.path).Nodup
  types : ∀ inventory, completeInventory poll = some inventory → poll.recipe = utf8 "folder_report" →
    ((renewed world.last inventory.files).map fun entry => jobsReportType entry.path).dedup.length ≤ maxGroups

section Inventories

theorem path_key_injective : Function.Injective pathKey :=
  List.map_injective_iff.mpr fun _ _ => UInt8.toNat_inj.mp

theorem inventory_step_files {inventory inventory' : Inventory} {record : Bytes}
    (stepped : inventoryStep inventory record = some inventory') : inventory'.files = inventory.files ∨
      ∃ row entry, watchRow "rel_path" row = some entry ∧ inventory.files.length < maxFiles ∧
        inventory'.files = inventory.files ++ [entry] := by
  unfold inventoryStep at stepped
  split at stepped
  · dsimp only at stepped
    split_ifs at stepped with file full
    · obtain ⟨entry, _, none_⟩ := Option.bind_eq_some_iff.mp stepped
      cases none_
    · obtain ⟨entry, read, added⟩ := Option.bind_eq_some_iff.mp stepped
      cases added
      exact .inr ⟨_, entry, read, by omega, rfl⟩
    · cases stepped
      exact .inl rfl
    · cases stepped
      exact .inl rfl
    · cases stepped
      exact .inl rfl
  · cases stepped

structure Listed (inventory : Inventory) : Prop where
  few : inventory.files.length ≤ maxFiles
  counts : ∀ entry ∈ inventory.files, Counts entry

theorem listed_step {inventory inventory' : Inventory} {record : Bytes} (listed : Listed inventory)
    (stepped : inventoryStep inventory record = some inventory') : Listed inventory' := by
  rcases inventory_step_files stepped with same | ⟨row, entry, read, room, more⟩
  · exact ⟨by rw [same]; exact listed.few, by rw [same]; exact listed.counts⟩
  · refine ⟨by rw [more, List.length_append, List.length_singleton]; omega, ?_⟩
    intro other inside
    rw [more] at inside
    rcases List.mem_append.mp inside with old | new
    · exact listed.counts other old
    · rw [List.mem_singleton.mp new]
      exact watch_row_counts read

theorem listed_run (lines : List Bytes) : ∀ {inventory inventory' : Inventory}, Listed inventory →
    lines.foldlM inventoryStep inventory = some inventory' → Listed inventory' := by
  induction lines with
  | nil =>
    intro inventory inventory' listed ran
    cases ran
    exact listed
  | cons record lines ih =>
    intro inventory inventory' listed ran
    rw [List.foldlM_cons, Option.bind_eq_bind, Option.bind_eq_some_iff] at ran
    obtain ⟨next, stepped, later⟩ := ran
    exact ih (listed_step listed stepped) later

theorem inventory_listed {poll : WatchPoll} {inventory : Inventory} (complete : completeInventory poll = some inventory) :
    Listed inventory := by
  simp only [completeInventory, Option.bind_eq_bind, Option.bind_eq_some_iff] at complete
  obtain ⟨output, _, read, ran, whole⟩ := complete
  split_ifs at whole
  cases whole
  exact listed_run _ ⟨Nat.zero_le _, fun _ inside => by cases inside⟩ ran

end Inventories

section Compare

variable {before now previous current : List WatchEntry}

def oldOf (previous : List WatchEntry) (entry : WatchEntry) : Option WatchEntry :=
  lookup (fun old => pathKey old.path) previous (pathKey entry.path)

theorem keys_once {entries : List WatchEntry} (once : (entries.map WatchEntry.path).Nodup) :
    (entries.map fun entry => pathKey entry.path).Nodup := by
  have keys := once.map path_key_injective
  rwa [List.map_map] at keys

theorem old_none (same : previous.Perm before) (entry : WatchEntry) :
    (oldOf previous entry).isNone = before.all fun old => old.path ≠ entry.path := by
  rw [Bool.eq_iff_iff, Option.isNone_iff_eq_none, oldOf, lookup, List.find?_eq_none, List.all_eq_true]
  constructor
  · intro other old inside
    have apart := other old (same.mem_iff.mpr inside)
    simp only [decide_eq_true_eq] at apart ⊢
    exact fun path => apart (congrArg pathKey path)
  · intro other old inside
    have apart := other old (same.mem_iff.mp inside)
    simp only [decide_eq_true_eq] at apart ⊢
    exact fun path => apart (path_key_injective path)

theorem old_unique (once : (previous.map WatchEntry.path).Nodup) {entry old : WatchEntry} (inside : old ∈ previous)
    (path : old.path = entry.path) : oldOf previous entry = some old := by
  induction previous with
  | nil => cases inside
  | cons first rest ih =>
    rw [List.map_cons, List.nodup_cons] at once
    rcases List.mem_cons.mp inside with rfl | later
    · rw [oldOf, lookup, List.find?_cons_of_pos (by simp [path])]
    · have apart : pathKey first.path ≠ pathKey entry.path := by
        intro same
        apply once.1
        rw [path_key_injective same, ← path]
        exact List.mem_map_of_mem later
      rw [oldOf, lookup, List.find?_cons_of_neg (by simpa using apart)]
      exact ih once.2 later

theorem old_altered (same : previous.Perm before) (once : (before.map WatchEntry.path).Nodup) (entry : WatchEntry) :
    ((oldOf previous entry).any fun old => !sameIdentity entry old) =
      before.any fun old => old.path = entry.path && !sameIdentity entry old := by
  have once' : (previous.map WatchEntry.path).Nodup := (same.map _).nodup_iff.mpr once
  rw [Bool.eq_iff_iff, List.any_eq_true, Option.any_eq_true]
  constructor
  · rintro ⟨old, found, differs⟩
    have path : pathKey old.path = pathKey entry.path := by simpa using List.find?_some found
    refine ⟨old, same.mem_iff.mp (List.mem_of_find?_eq_some found), ?_⟩
    rw [differs, Bool.and_true, decide_eq_true_eq]
    exact path_key_injective path
  · rintro ⟨old, inside, differs⟩
    rw [Bool.and_eq_true, decide_eq_true_eq] at differs
    exact ⟨old, old_unique once' (same.mem_iff.mpr inside) differs.1, differs.2⟩

theorem is_new_eq (sorted : previous.Pairwise fun a b => pathKey a.path < pathKey b.path) (same : previous.Perm before)
    (once : (before.map WatchEntry.path).Nodup) (entry : WatchEntry) : isNew previous entry =
      (before.all (fun old => old.path ≠ entry.path) ||
        before.any fun old => old.path = entry.path && !sameIdentity entry old) := by
  rw [← old_none same entry, ← old_altered same once entry, isNew, jobsWatchFind, bisect_find sorted]
  unfold oldOf
  cases lookup (fun old => pathKey old.path) previous (pathKey entry.path) with
  | none => rfl
  | some old => simp

section Counts

variable (ordered : current.Pairwise fun a b => pathKey a.path < pathKey b.path)
    (sorted : previous.Pairwise fun a b => pathKey a.path < pathKey b.path) (shuffled : current.Perm now)
    (same : previous.Perm before)
include ordered sorted shuffled same

theorem count_added_eq : countAdded (alignPaths current previous) = (appeared before now).length := by
  rw [countAdded, alignPaths, align_find ordered sorted, List.countP_map, appeared, ← List.countP_eq_length_filter,
    shuffled.countP_eq]
  apply List.countP_congr
  intro entry _
  rw [← old_none same entry]
  rfl

theorem count_changed_eq (once : (before.map WatchEntry.path).Nodup) :
    countChanged (alignPaths current previous) = (altered before now).length := by
  rw [countChanged, alignPaths, align_find ordered sorted, List.countP_map, altered, ← List.countP_eq_length_filter,
    shuffled.countP_eq]
  apply List.countP_congr
  intro entry _
  rw [← old_altered same once entry]
  rfl

end Counts

theorem renewed_length (before now : List WatchEntry) :
    (appeared before now).length + (altered before now).length = (renewed before now).length := by
  simp only [appeared, altered, renewed, ← List.countP_eq_length_filter]
  induction now with
  | nil => rfl
  | cons entry now ih =>
    simp only [List.countP_cons]
    have apart : (before.all fun old => decide (old.path ≠ entry.path)) = true →
        (before.any fun old => decide (old.path = entry.path) && !sameIdentity entry old) = false := by
      intro none_
      rw [List.any_eq_false]
      intro old inside
      have other := List.all_eq_true.mp none_ old inside
      simp only [ne_eq, decide_not, Bool.not_eq_true', decide_eq_false_iff_not] at other
      simp [other]
    cases added : before.all fun old => decide (old.path ≠ entry.path) with
    | true =>
      simp only [apart added, Bool.or_false, if_true, Bool.false_eq_true, if_false]
      omega
    | false =>
      simp only [Bool.false_or, Bool.false_eq_true, if_false]
      omega

end Compare

section Types

theorem count_type_keys {groups : List (Bytes × Nat)} {type : Bytes} (known : type ∈ groups.map Prod.fst) :
    (countType groups type).map Prod.fst = groups.map Prod.fst := by
  rw [countType, if_pos known, List.map_map]
  apply List.map_congr_left
  intro group _
  by_cases same : group.1 = type
  · simp [same]
  · simp [same]

theorem count_type_sum {groups : List (Bytes × Nat)} {type : Bytes} (once : (groups.map Prod.fst).Nodup)
    (known : type ∈ groups.map Prod.fst) : ((countType groups type).map Prod.snd).sum = (groups.map Prod.snd).sum + 1 := by
  rw [countType, if_pos known]
  induction groups with
  | nil => cases known
  | cons group groups ih =>
    rw [List.map_cons, List.nodup_cons] at once
    by_cases same : group.1 = type
    · have others : (groups.map fun group => if group.1 = type then (group.1, group.2 + 1) else group) = groups := by
        refine (List.map_congr_left fun other inside => if_neg ?_).trans (List.map_id' groups)
        intro again
        rw [same, ← again] at once
        exact once.1 (List.mem_map_of_mem inside)
      rw [List.map_cons, others, if_pos same, List.map_cons, List.map_cons, List.sum_cons, List.sum_cons]
      omega
    · have later : type ∈ groups.map Prod.fst := by
        rw [List.map_cons, List.mem_cons] at known
        exact known.resolve_left (Ne.symm same)
      have rest := ih once.2 later
      rw [List.map_cons, if_neg same, List.map_cons, List.map_cons, List.sum_cons, List.sum_cons, rest]
      omega

theorem count_types (types : List Bytes) : ∀ groups : List (Bytes × Nat), (groups.map Prod.fst).Nodup →
      (groups.map Prod.fst ++ types).toFinset.card ≤ maxGroups →
        ((types.foldl countType groups).map Prod.snd).sum = (groups.map Prod.snd).sum + types.length := by
  induction types with
  | nil => simp
  | cons type types ih =>
    intro groups once room
    rw [List.foldl_cons, List.length_cons]
    by_cases known : type ∈ groups.map Prod.fst
    · have keys := count_type_keys known
      rw [ih (countType groups type) (by rw [keys]; exact once) ?_, count_type_sum once known]
      · omega
      · rw [keys]
        refine (Finset.card_le_card ?_).trans room
        intro t inside
        simp only [List.mem_toFinset, List.mem_append, List.mem_cons] at inside ⊢
        tauto
    · have fresh : ((groups.map Prod.fst) ++ [type]).Nodup := by
        rw [List.nodup_append]
        exact ⟨once, List.nodup_singleton _, fun a inside b one => by
          rw [List.mem_singleton.mp one]
          rintro rfl
          exact known inside⟩
      have small : groups.length < maxGroups := by
        have covered : (groups.map Prod.fst ++ [type]).toFinset.card ≤ maxGroups := by
          refine (Finset.card_le_card ?_).trans room
          intro t inside
          simp only [List.mem_toFinset, List.mem_append, List.mem_cons, List.not_mem_nil, or_false] at inside ⊢
          tauto
        rw [List.toFinset_card_of_nodup fresh, List.length_append, List.length_map, List.length_singleton] at covered
        omega
      rw [countType, if_neg known, if_pos small]
      rw [ih _ (by rw [List.map_append]; exact fresh) ?_]
      · simp only [List.map_append, List.sum_append, List.map_cons, List.map_nil, List.sum_cons, List.sum_nil]
        omega
      · refine (Finset.card_le_card ?_).trans room
        intro t inside
        simp only [List.map_append, List.map_cons, List.map_nil, List.mem_toFinset, List.mem_append, List.mem_cons,
          List.not_mem_nil, or_false] at inside ⊢
        tauto

end Types

section Step

variable {world : WatchWorld} {poll : WatchPoll}

inductive WatchInv : WatchWorld → Prop
  | new : WatchInv newWatch
  | saved {last entries : List WatchEntry} (same : entries.Perm last) (few : entries.length ≤ maxFiles)
      (recorded : ∀ entry ∈ entries, Recorded entry) (counts : ∀ entry ∈ entries, Counts entry)
      (once : (last.map WatchEntry.path).Nodup) : WatchInv { last := last, file := some (stateText entries) }

theorem previous_read (inv : WatchInv world) (good : WatchGood world poll) :
    ∃ previous, readPrevious poll.calls world.file = some previous ∧ previous.Perm world.last ∧
      (world.last.map WatchEntry.path).Nodup := by
  cases inv with
  | new => exact ⟨[], rfl, .refl _, List.nodup_nil⟩
  | @saved last entries same few recorded counts once =>
    have small := good.state _ rfl
    obtain ⟨opens, stats, allocates, reads, _⟩ := good.works
    refine ⟨_, ?_, same, once⟩
    have read : readFileLimit poll.calls stateMax (some (stateText entries)) = some (stateText entries) := by
      simp only [readFileLimit, opens, stats, allocates, reads, Bool.not_true, Bool.false_eq_true, if_false,
        Bool.false_or, decide_eq_true_eq]
      exact if_neg (Nat.not_lt.mpr small)
    rw [readPrevious, read]
    exact read_state_text recorded counts few

theorem captured (good : WatchGood world poll) : runCapture inventoryMax poll.output = poll.output := by
  cases output : poll.output with
  | none => rfl
  | some bytes => exact Option.filter_eq_some_iff.mpr ⟨rfl, by simpa using good.output bytes output⟩

theorem reported_sorted {before now current previous : List WatchEntry} (skipped : Nat)
    (ordered : current.Pairwise fun a b => pathKey a.path < pathKey b.path)
    (sorted : previous.Pairwise fun a b => pathKey a.path < pathKey b.path) (shuffled : current.Perm now)
    (same : previous.Perm before) (once : (before.map WatchEntry.path).Nodup) (types : poll.recipe = utf8 "folder_report" →
      ((renewed before now).map fun entry => jobsReportType entry.path).dedup.length ≤ maxGroups) :
    (poll.baseline = true → TakesStock (watchReport poll.recipe poll.baseline current previous skipped)) ∧
      (poll.baseline = false →
        Reported before now poll.recipe (watchReport poll.recipe poll.baseline current previous skipped)) := by
  have fresh : (current.filter (isNew previous)).Perm (renewed before now) := by
    rw [List.filter_congr fun entry _ => is_new_eq sorted same once entry]
    exact shuffled.filter _
  have added := count_added_eq ordered sorted shuffled same
  have changed := count_changed_eq ordered sorted shuffled same once
  have processed := renewed_length before now
  cases baseline : poll.baseline with
  | true => exact ⟨fun _ => ⟨rfl, rfl, rfl, rfl⟩, Bool.noConfusion⟩
  | false =>
    refine ⟨Bool.noConfusion, fun _ => ⟨added, changed, count_added_eq sorted ordered same shuffled, ?_, ?_, ?_⟩⟩
    · exact (congrArg₂ (· + ·) added changed).trans processed
    · intro recipe
      exact ⟨_, if_pos ⟨rfl, recipe⟩, fresh.map inboxItem⟩
    · intro recipe
      refine ⟨_, if_pos ⟨rfl, recipe⟩, ?_⟩
      have room : ((current.filter (isNew previous)).map fun entry => jobsReportType entry.path).toFinset.card ≤
          maxGroups := by
        rw [List.card_toFinset, (fresh.map _).dedup.length_eq]
        exact types recipe
      have sum := count_types ((current.filter (isNew previous)).map fun entry : WatchEntry => jobsReportType entry.path)
        [] List.nodup_nil room
      rw [List.foldl_map, List.length_map, fresh.length_eq, ← processed, ← added, ← changed, List.map_nil, List.sum_nil,
        Nat.zero_add] at sum
      exact sum

theorem exact_step (inv : WatchInv world) (good : WatchGood world poll) :
    Exact world.last poll world.file ∧ WatchInv (pollWatch world poll) := by
  obtain ⟨previous, read, same, once⟩ := previous_read inv good
  have outcome : watchOutcome poll world.file = (completeInventory poll).map fun inventory =>
      (watchReport poll.recipe poll.baseline (sortOn (fun entry => pathKey entry.path) inventory.files)
        (sortOn (fun entry => pathKey entry.path) previous) inventory.skipped,
        stateText (sortOn (fun entry => pathKey entry.path) inventory.files)) := by
    simp only [watchOutcome, read, captured good, completeInventory, Option.bind_eq_bind, Option.bind_some]
    cases poll.output with
    | none => rfl
    | some raw =>
      simp only [Option.bind_some]
      cases readInventory raw with
      | none => rfl
      | some inventory =>
        simp only [Option.bind_some]
        by_cases whole : inventory.done = true ∧ inventory.incomplete = false
        · rw [if_pos whole, if_neg (by simp [whole])]
          rfl
        · rw [if_neg whole, if_pos (by
            cases done : inventory.done with
            | false => exact .inl rfl
            | true => exact .inr (by simpa [done] using whole))]
          rfl
  cases complete : completeInventory poll with
  | none =>
    rw [complete, Option.map_none] at outcome
    have still : jobsWatchDelta poll world.file = (none, world.file) := by rw [jobsWatchDelta, outcome]
    refine ⟨⟨fun _ => still, fun other same => ?_⟩, ?_⟩
    · rw [complete] at same
      cases same
    · rw [pollWatch, complete, still]
      exact inv
  | some inventory =>
    rw [complete, Option.map_some] at outcome
    have listed := inventory_listed complete
    have once' := good.once inventory complete
    have shuffled := sort_on_perm (fun entry : WatchEntry => pathKey entry.path) inventory.files
    have recorded : ∀ entry ∈ sortOn (fun entry => pathKey entry.path) inventory.files, Recorded entry :=
      fun entry inside => good.recorded inventory complete entry (shuffled.mem_iff.mp inside)
    have counts : ∀ entry ∈ sortOn (fun entry => pathKey entry.path) inventory.files, Counts entry :=
      fun entry inside => listed.counts entry (shuffled.mem_iff.mp inside)
    have few : (sortOn (fun entry => pathKey entry.path) inventory.files).length ≤ maxFiles := by
      rw [shuffled.length_eq]
      exact listed.few
    have reported := @reported_sorted poll world.last inventory.files _ _ inventory.skipped
      (sort_on_sorted (keys_once once')) (sort_on_sorted (keys_once ((same.map _).nodup_iff.mpr once))) shuffled
      ((sort_on_perm _ previous).trans same) once (good.types inventory complete)
    have polled : jobsWatchDelta poll world.file =
        (some (watchReport poll.recipe poll.baseline (sortOn (fun entry => pathKey entry.path) inventory.files)
          (sortOn (fun entry => pathKey entry.path) previous) inventory.skipped),
          some (stateText (sortOn (fun entry => pathKey entry.path) inventory.files))) := by
      rw [jobsWatchDelta, outcome]
      simp only [writeSmallFile, good.works.writes, if_true, cstr_self (state_text recorded)]
    constructor
    · refine ⟨fun none_ => absurd (complete.symm.trans none_) (Option.some_ne_none _), fun other found => ?_⟩
      rw [complete] at found
      cases found
      rw [polled]
      exact ⟨_, rfl, ⟨_, _, rfl, read_state_text recorded counts few, shuffled⟩, reported⟩
    · rw [pollWatch, complete, polled]
      exact .saved shuffled few recorded counts once'

end Step

theorem large_state_lost (poll : WatchPoll) {content : Bytes} (large : stateMax < content.length) :
    (jobsWatchDelta poll (some content)).1 = (jobsWatchDelta poll none).1 := by
  have lost : readFileLimit poll.calls stateMax (some content) = none := by
    unfold readFileLimit
    dsimp only
    split_ifs with opens stats allocates reads
    · rfl
    · rfl
    · rfl
    · rfl
    · simp only [Bool.or_eq_true, decide_eq_true_eq, not_or] at stats
      exact absurd large stats.2
  have same : watchOutcome poll (some content) = watchOutcome poll none := by
    rw [watchOutcome, watchOutcome, readPrevious, readPrevious, lost]
    rfl
  rw [jobsWatchDelta, jobsWatchDelta, same]
  cases watchOutcome poll none with
  | none => rfl
  | some outcome =>
    simp only [writeSmallFile]
    split <;> rfl

theorem watch_exact (polls : List WatchPoll) (good : Along pollWatch WatchGood newWatch polls) :
    ∀ earlier poll later, polls = earlier ++ poll :: later →
      Exact (earlier.foldl pollWatch newWatch).last poll (earlier.foldl pollWatch newWatch).file := by
  rintro earlier poll later rfl
  obtain ⟨before, here⟩ := along_append good
  have kept : ∀ world poll, WatchInv world → WatchGood world poll → WatchInv (pollWatch world poll) :=
    fun world poll inv good => (exact_step inv good).2
  have inv := along_invariant kept WatchInv.new earlier before
  exact (exact_step inv here.1).1

def working : EventCalls :=
  ⟨true, true, true, true, true, true, true, true, true, true, true, true⟩

theorem working_works : Works working :=
  ⟨rfl, rfl, rfl, rfl, rfl⟩

def fileRecord (path size : Bytes) : Bytes :=
  utf8 "\x7b\"type\":\"file\",\"rel_path\":\"" ++ path ++ utf8 "\",\"size\":" ++ size ++
    utf8 ",\"mtime\":0,\"dev\":0,\"ino\":7\x7d\n"

def doneRecord : Bytes :=
  utf8 "\x7b\"type\":\"done\",\"partial\":false\x7d\n"

def folderReport (files : List (Bytes × Bytes)) : WatchPoll where
  calls := working
  output := some (files.flatMap (fun file => fileRecord file.1 file.2) ++ doneRecord)
  recipe := utf8 "folder_report"
  baseline := false

def oneFile (size : Nat) : WatchEntry :=
  { path := utf8 "a.txt", size := size, dev := 0, ino := 7, mtime := Binary64.zero }

theorem one_file_recorded (size : Nat) : Recorded (oneFile size) where
  text := literal_text (by decide)
  finite := ⟨false, .zero, rfl⟩
  nine := show FloatText.throughNine Binary64.zero = Binary64.zero by decide +kernel
  fits := show (FloatText.fixedNine Binary64.zero).length < 64 by decide +kernel

theorem one_file_good {world : WatchWorld} {size : Bytes} {n : Nat} {inventory : Inventory}
    (complete : completeInventory (folderReport [(utf8 "a.txt", size)]) = some inventory) (one : inventory.files = [oneFile n])
    (state : ∀ content, world.file = some content → content.length ≤ stateMax)
    (short : (fileRecord (utf8 "a.txt") size).length + doneRecord.length < inventoryMax) :
    WatchGood world (folderReport [(utf8 "a.txt", size)]) where
  works := working_works
  state := state
  output := by
    intro output same
    cases same
    rw [List.length_append, List.flatMap_singleton]
    exact short
  recorded := by
    intro other same entry inside
    rw [complete] at same
    cases same
    rw [one] at inside
    rw [List.mem_singleton.mp inside]
    exact one_file_recorded n
  once := by
    intro other same
    rw [complete] at same
    cases same
    rw [one]
    exact List.nodup_singleton _
  types := by
    intro other same _
    rw [complete] at same
    cases same
    refine (List.dedup_sublist _).length_le.trans ?_
    rw [List.length_map, one]
    exact (List.length_filter_le _ _).trans (show 1 ≤ maxGroups by decide)

theorem second_size_exact :
    Exact [oneFile 1] (folderReport [(utf8 "a.txt", utf8 "2")]) (pollWatch newWatch (folderReport [(utf8 "a.txt", utf8 "1")])).file := by
  have first : completeInventory (folderReport [(utf8 "a.txt", utf8 "1")]) =
      some { files := [oneFile 1], skipped := 0, done := true, incomplete := false } := by decide +kernel
  have second : completeInventory (folderReport [(utf8 "a.txt", utf8 "2")]) =
      some { files := [oneFile 2], skipped := 0, done := true, incomplete := false } := by decide +kernel
  have small : ((pollWatch newWatch (folderReport [(utf8 "a.txt", utf8 "1")])).file.all fun content =>
      decide (content.length ≤ stateMax)) = true := by decide +kernel
  have good : Along pollWatch WatchGood newWatch [folderReport [(utf8 "a.txt", utf8 "1")], folderReport [(utf8 "a.txt", utf8 "2")]] := by
    refine ⟨one_file_good first rfl (fun content none_ => by cases none_) (by decide +kernel), ?_, trivial⟩
    refine one_file_good second rfl (fun content here => ?_) (by decide +kernel)
    rw [here] at small
    simpa using small
  have last : (pollWatch newWatch (folderReport [(utf8 "a.txt", utf8 "1")])).last = [oneFile 1] := by
    rw [pollWatch, first, Option.map_some, Option.getD_some]
  have second_ := watch_exact _ good [folderReport [(utf8 "a.txt", utf8 "1")]] (folderReport [(utf8 "a.txt", utf8 "2")]) []
    rfl
  rwa [List.foldl_cons, List.foldl_nil, last] at second_

def manyTypes : WatchPoll :=
  folderReport ((List.range 65).map fun i => (utf8 "a." ++ [UInt8.ofNat (0x61 + i / 10), UInt8.ofNat (0x30 + i % 10)], utf8 "1"))

theorem type_past_table :
    ¬∀ polls : List WatchPoll, (∀ poll ∈ polls, Works poll.calls) →
      ∀ earlier poll later, polls = earlier ++ poll :: later →
        Exact (earlier.foldl pollWatch newWatch).last poll (earlier.foldl pollWatch newWatch).file := by
  intro claim
  have counted : ((jobsWatchDelta manyTypes none).1.map fun report =>
      (report.processed, report.byType.map fun groups => (groups.map Prod.snd).sum)) = some (65, some 64) := by
    decide +kernel
  have exact_ := claim [manyTypes] (fun poll inside => by rw [List.mem_singleton.mp inside]; exact working_works) []
    manyTypes [] rfl
  rw [List.foldl_nil, newWatch] at exact_
  cases complete : completeInventory manyTypes with
  | none =>
    rw [exact_.kept complete] at counted
    cases counted
  | some inventory =>
    obtain ⟨report, found, _, _, reported⟩ := exact_.told inventory complete
    obtain ⟨groups, listed, sum⟩ := (reported rfl).types rfl
    rw [found, Option.map_some, listed, Option.map_some, sum] at counted
    simp only [Option.some.injEq, Prod.mk.injEq] at counted
    omega

end SamosaChat.Jobs
