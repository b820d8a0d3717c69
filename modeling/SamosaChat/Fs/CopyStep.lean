import SamosaChat.Fs.Descent

set_option autoImplicit false

namespace SamosaChat.Fs

open Crash Function

variable {f g h : Folder}

structure Linked (names : CopyNames) (f g : Folder) : Prop where
  free : f.names names.destination = none
  receipt : ∃ node, f.names names.receipt = some node ∧
    Folder.Renamed f g (Function.update f.names names.destination (some node))

theorem publish_ends (attempt : Attempt) (names : CopyNames) (f : Folder) : Ends (publishCopy attempt names)
      (fun answer g => g = f ∧ answer.applied = false ∨ Linked names f g) (fun g => g = f ∨ Linked names f g) f := by
  unfold publishCopy
  refine ends_step (.inl rfl) (fun errno _ _ => .inl ⟨rfl, rfl⟩) fun _ => ?_
  rcases Folder.link_cases names.receipt names.destination f with
    ⟨errno, failed⟩ | ⟨node, free, here, _, result, renamed⟩
  · rw [failed]
    exact .inl ⟨rfl, rfl⟩
  · rw [result]
    have linked : Linked names f _ := ⟨free, node, here, renamed⟩
    exact ends_step (.inr linked) (fun _ _ _ => .inr linked) fun _ => .inr linked

structure Wrote (stage : FileId) (f g : Folder) : Prop where
  names : g.names = f.names
  files : ∀ id, id ≠ stage → g.files id = f.files id
  mode : (g.files stage).mode = (f.files stage).mode
  next : g.next = f.next

theorem Wrote.refl {stage : FileId} : Wrote stage f f :=
  ⟨rfl, fun _ _ => rfl, rfl, rfl⟩

theorem Wrote.trans {stage : FileId} (first : Wrote stage f g) (second : Wrote stage g h) : Wrote stage f h :=
  ⟨second.names.trans first.names, fun id other => (second.files id other).trans (first.files id other),
    second.mode.trans first.mode, second.next.trans first.next⟩

theorem wrote_byte (stage : FileId) (byte : UInt8) (now : Int) (f : Folder) :
    Wrote stage f (Folder.write stage byte now f).2 ∧
      ((Folder.write stage byte now f).2.files stage).content = (f.files stage).content ++ [byte] := by
  refine ⟨⟨rfl, fun id other => ?_, ?_, rfl⟩, ?_⟩
  · simp [Folder.write, Folder.modify, update_of_ne other]
  · simp [Folder.write, Folder.modify]
  · simp [Folder.write, Folder.modify]

theorem copy_bytes_ends (attempt : Attempt) (source temporary : Path) (stage : FileId) (bytes : List UInt8) :
    ∀ (offset : Nat) (f : Folder), Ends (copyBytes attempt source temporary stage offset bytes)
        (fun answer g => Wrote stage f g ∧ (answer = none → (g.files stage).content = (f.files stage).content ++ bytes))
        (Wrote stage f) f := by
  induction bytes with
  | nil =>
    intro offset f
    rw [copyBytes]
    refine ends_step Wrote.refl (fun _ _ _ => ⟨Wrote.refl, by simp⟩) fun _ => ⟨Wrote.refl, by simp⟩
  | cons byte rest ih =>
    intro offset f
    rw [copyBytes]
    refine ends_step Wrote.refl (fun _ _ _ => ⟨Wrote.refl, by simp⟩) fun _ => ?_
    refine ends_step Wrote.refl (fun _ _ _ => ⟨Wrote.refl, by simp⟩) fun _ => ?_
    obtain ⟨wrote, content⟩ := wrote_byte stage byte attempt.now f
    refine (ih (offset + 1) _).mono (fun answer g ends => ⟨wrote.trans ends.1, fun done => ?_⟩)
      (fun g more => wrote.trans more)
    rw [ends.2 done, content]
    simp

structure Copied (source : FileId) (expectedHash : String) (f g : Folder) (id : FileId) : Prop where
  content : (g.files id).content = (f.files source).content
  mode : (g.files id).mode = (f.files source).mode &&& 0o777
  hash : hashOf (g.files id) = expectedHash

structure Staging (names : CopyNames) (source stage : FileId) (expectedHash : String) (f g : Folder) : Prop where
  others : ∀ path, path ≠ names.receipt → path ≠ names.temporary → g.names path = f.names path
  files : ∀ id, id ≠ stage → g.files id = f.files id
  next : g.next = f.next
  place : g.names names.temporary = some (.regular stage) ∧ g.names names.receipt = f.names names.receipt ∨
    g.names names.temporary = none ∧ g.names names.receipt = some (.regular stage) ∧
      Copied source expectedHash f g stage

theorem wrote_staging {names : CopyNames} {source stage : FileId} {expectedHash : String} (wrote : Wrote stage f g)
    (start : f.names names.temporary = some (.regular stage)) : Staging names source stage expectedHash f g :=
  ⟨fun path _ _ => by rw [wrote.names], wrote.files, wrote.next, .inl ⟨by rw [wrote.names, start], by rw [wrote.names]⟩⟩

theorem rename_staging {names : CopyNames} {source stage : FileId} {expectedHash : String}
    (start : f.names names.temporary = some (.regular stage)) (apart : names.receipt ≠ names.temporary)
    (unlinked : f.names names.receipt ≠ some (.regular stage))
    (same : g.names = f.names) (files : ∀ id, id ≠ stage → g.files id = f.files id) (next : g.next = f.next)
    (copied : Copied source expectedHash f g stage) :
    Staging names source stage expectedHash f (Folder.rename names.temporary names.receipt g).2 ∧
      ((Folder.rename names.temporary names.receipt g).1 = .ok () →
        (Folder.rename names.temporary names.receipt g).2.names names.receipt = some (.regular stage)) := by
  rcases Folder.rename_cases names.temporary names.receipt g with ⟨errno, failed⟩ | ⟨node, here, _, done⟩
  · rw [failed]
    exact ⟨⟨fun path _ _ => by rw [same], files, next, .inl ⟨by rw [same, start], by rw [same]⟩⟩, fun ok => by cases ok⟩
  · rw [same, start] at here
    cases here
    rcases done with ⟨linked, _⟩ | ⟨_, renamed⟩
    · rw [same] at linked
      exact absurd linked unlinked
    · have receipt : (Folder.rename names.temporary names.receipt g).2.names names.receipt = some (.regular stage) := by
        rw [renamed.names, update_of_ne apart, update_self]
      refine ⟨⟨fun path a b => ?_, ?_, renamed.next.trans next, .inr ⟨?_, receipt, ?_⟩⟩, fun _ => receipt⟩
      · rw [renamed.names, update_of_ne b, update_of_ne a, same]
      · rw [renamed.files]
        exact files
      · rw [renamed.names, update_self]
      · exact ⟨by rw [renamed.files, copied.content], by rw [renamed.files, copied.mode], by rw [renamed.files, copied.hash]⟩

theorem fill_stage_ends (attempt : Attempt) (names : CopyNames) (source : Path) (before stage : FileId)
    (expected : Expected) (expectedHash : String) (f : Folder)
    (start : f.names names.temporary = some (.regular stage)) (empty : (f.files stage).content = []) (apart : names.receipt ≠ names.temporary)
    (unlinked : f.names names.receipt ≠ some (.regular stage)) :
    Ends (fillStage attempt names source before stage expected expectedHash)
      (fun answer g => Staging names before stage expectedHash f g ∧
        (answer = none → g.names names.receipt = some (.regular stage))) (Staging names before stage expectedHash f) f := by
  unfold fillStage
  rw [ends_bind, ends_look]
  refine (Ends.mono (copy_bytes_ends attempt source names.temporary stage (f.files before).content 0 f)
    (fun answer g ends => ends) (fun g wrote => wrote_staging wrote start)).bind fun answer g ends => ?_
  obtain ⟨wrote, content⟩ := ends
  have staging : Staging names before stage expectedHash f g := wrote_staging wrote start
  cases answer with
  | some reason => exact ⟨staging, by simp⟩
  | none =>
    dsimp only
    by_cases changed : (f.files before).content.length ≠ expected.size ∨ hashOf (f.files before) ≠ expectedHash
    · rw [if_pos changed]
      exact ⟨staging, by simp⟩
    rw [if_neg changed]
    simp only [not_or, ne_eq, not_not] at changed
    refine ends_step staging (fun _ _ _ => ⟨staging, by simp⟩) fun _ => ?_
    rw [ends_bind, ends_look]
    split
    · exact ⟨staging, by simp⟩
    refine ends_step staging (fun _ _ _ => ⟨staging, by simp⟩) fun _ => ?_
    have bytes : (g.files stage).content = (f.files before).content := by
      rw [content rfl, empty, List.nil_append]
    -- The staged file is complete: it has the bytes, and now the permissions.
    have copied : Copied before expectedHash f
        (Folder.fchmod stage ((f.files before).mode &&& 0o777) g).2 stage := by
      refine ⟨?_, ?_, ?_⟩
      · simp [Folder.fchmod, Folder.modify, bytes]
      · simp [Folder.fchmod, Folder.modify]
      · rw [← changed.2]
        simp [Folder.fchmod, Folder.modify, hashOf, bytes]
    have others : ∀ id, id ≠ stage →
        (Folder.fchmod stage ((f.files before).mode &&& 0o777) g).2.files id = f.files id := by
      intro id other
      rw [← wrote.files id other]
      simp [Folder.fchmod, Folder.modify, update_of_ne other]
    have same : (Folder.fchmod stage ((f.files before).mode &&& 0o777) g).2.names = f.names := wrote.names
    have next : (Folder.fchmod stage ((f.files before).mode &&& 0o777) g).2.next = f.next := wrote.next
    generalize (Folder.fchmod stage ((f.files before).mode &&& 0o777) g).2 = full at copied others same next ⊢
    have ready : Staging names before stage expectedHash f full :=
      ⟨fun path _ _ => by rw [same], others, next, .inl ⟨by rw [same, start], by rw [same]⟩⟩
    refine ends_step ready (fun _ _ _ => ⟨ready, by simp⟩) fun _ => ?_
    refine ends_step ready (fun _ _ _ => ⟨ready, by simp⟩) fun _ => ?_
    obtain ⟨renamed, placed⟩ := rename_staging start apart unlinked same others next copied
    cases result : (Folder.rename names.temporary names.receipt full).1 with
    | error errno => exact ⟨renamed, by simp⟩
    | ok _ =>
      dsimp only
      exact ends_step renamed (fun _ _ _ => ⟨renamed, by simp⟩) fun _ => ⟨renamed, fun _ => placed result⟩

structure CopyNames.Apart (names : CopyNames) : Prop where
  receiptTemporary : names.receipt ≠ names.temporary
  receiptDestination : names.receipt ≠ names.destination
  temporaryDestination : names.temporary ≠ names.destination

structure CopyFrame (names : CopyNames) (f g : Folder) : Prop where
  others : ∀ path, path ≠ names.receipt → path ≠ names.destination → path ≠ names.temporary →
    g.names path = f.names path
  temporary : g.names names.temporary = f.names names.temporary ∨ f.names names.temporary = none
  files : ∀ id, id.ino < f.next → g.files id = f.files id
  next : f.next ≤ g.next

inductive Owned (names : CopyNames) (source : Path) (expectedHash : String) (f g : Folder) (id : FileId) : Prop
  | receipt (here : f.names names.receipt = some (.regular id)) (hash : hashOf (f.files id) = expectedHash)
  | copy (from_ : FileId) (here : f.names source = some (.regular from_)) (fresh : f.next ≤ id.ino)
      (copied : Copied from_ expectedHash f g id)

inductive CopyChange (names : CopyNames) (undo : Bool) (source : Path) (expectedHash : String) (blind : Prop)
    (f g : Folder) : Prop
  | kept (receipt : g.names names.receipt = f.names names.receipt)
      (destination : g.names names.destination = f.names names.destination)
  | staged (id : FileId) (copy : undo = false) (unseen : f.names names.destination = none ∨ blind)
      (owned : Owned names source expectedHash f g id)
      (receipt : g.names names.receipt = some (.regular id))
      (destination : g.names names.destination = f.names names.destination)
  | published (id : FileId) (copy : undo = false) (owned : Owned names source expectedHash f g id)
      (free : f.names names.destination = none) (receipt : g.names names.receipt = some (.regular id))
      (destination : g.names names.destination = some (.regular id))
  | unpublished (id : FileId) (undone : undo = true) (receipt : f.names names.receipt = some (.regular id))
      (hash : hashOf (f.files id) = expectedHash) (destination : f.names names.destination = some (.regular id))
      (gone : g.names names.destination = none)
      (left : g.names names.receipt = f.names names.receipt ∨ g.names names.receipt = none)
  | cleaned (undone : undo = true) (unseen : f.names names.destination = none ∨ blind)
      (gone : g.names names.receipt = none)
      (destination : g.names names.destination = f.names names.destination)

def Completed (names : CopyNames) (expectedHash : String) (f : Folder) : Prop :=
  ∃ id, f.names names.destination = some (.regular id) ∧ f.names names.receipt = some (.regular id) ∧
    hashOf (f.files id) = expectedHash

def CopyStops (names : CopyNames) (undo : Bool) (source : Path) (expectedHash : String) (blind : Prop)
    (f g : Folder) : Prop :=
  CopyFrame names f g ∧ CopyChange names undo source expectedHash blind f g

def CopyAnswers (names : CopyNames) (undo : Bool) (source : Path) (expectedHash : String) (blind ready : Prop)
    (f : Folder) (answer : CopyResult) (g : Folder) : Prop :=
  CopyStops names undo source expectedHash blind f g ∧
    (answer.applied = true → undo = false → Completed names expectedHash g) ∧
    (answer.applied = true → undo = false → f.names names.receipt = none → ready)

theorem CopyFrame.refl {names : CopyNames} : CopyFrame names f f :=
  ⟨fun _ _ _ _ => rfl, .inl rfl, fun _ _ => rfl, Nat.le_refl _⟩

theorem stops_here {names : CopyNames} {undo : Bool} {source : Path} {expectedHash : String} {blind : Prop} :
    CopyStops names undo source expectedHash blind f f :=
  ⟨CopyFrame.refl, .kept rfl rfl⟩

theorem answers_here {names : CopyNames} {undo : Bool} {source : Path} {expectedHash reason : String} {blind ready : Prop} :
    CopyAnswers names undo source expectedHash blind ready f (notApplied reason) f :=
  ⟨stops_here, fun applied => (by cases applied), fun applied => by cases applied⟩

theorem stops_answer {names : CopyNames} {undo : Bool} {source : Path} {expectedHash : String} {blind ready : Prop}
    {answer : CopyResult} (stops : CopyStops names undo source expectedHash blind f g)
    (failed : answer.applied = false) : CopyAnswers names undo source expectedHash blind ready f answer g :=
  ⟨stops, fun applied => (by rw [failed] at applied; cases applied), fun applied => by rw [failed] at applied; cases applied⟩

theorem grown_nothing {made : Path → Prop} (grown : Grown made f g) (nothing : ∀ path, ¬ made path) : g = f := by
  have names : g.names = f.names := funext fun path => grown.outside (nothing path)
  obtain ⟨_, files, next, dev⟩ := grown
  cases f
  cases g
  simp_all

structure SourceReady (root relative : Path) (expected : Expected) (f : Folder) (id : FileId) : Prop where
  short : textLength relative ≤ pathMax
  way : Open f root relative
  here : f.names (root ++ relative) = some (.regular id)
  unchanged : sourceChanged expected id (f.files id) = false

theorem open_source_ends (attempt : Attempt) (root relative : Path) (expected : Expected) (f : Folder) :
    Ends (openSource attempt root relative expected) (fun answer g => g = f ∧ ∀ path id, answer = some (path, id) →
        path = root ++ relative ∧ SourceReady root relative expected f id) (fun g => g = f) f := by
  have failed : f = f ∧ ∀ path id, (none : Option (Path × FileId)) = some (path, id) →
      path = root ++ relative ∧ SourceReady root relative expected f id := ⟨rfl, fun _ _ none => by cases none⟩
  have nothing : ∀ path, ¬ (false = true ∧ OnTheWay root relative path) := fun _ made => by cases made.1
  unfold openSource
  refine (Ends.mono (action_parent_ends attempt .source root relative false f) (fun answer g ends => ends)
    (fun g grown => grown_nothing grown nothing)).bind fun answer g ends => ?_
  obtain ⟨grown, found⟩ := ends
  cases grown_nothing grown nothing
  cases answer with
  | none => exact failed
  | some at_ =>
    obtain ⟨directory, leaf⟩ := at_
    obtain ⟨path, short, way⟩ := found directory leaf rfl
    refine ends_step rfl (fun _ _ _ => failed) fun _ => ?_
    obtain ⟨same, named⟩ := Folder.open_read_names (directory ++ [leaf]) f
    rw [same]
    cases result : (Folder.openRead (directory ++ [leaf]) f).1 with
    | error errno => exact failed
    | ok node =>
      have here := named node result
      refine ends_step rfl (fun _ _ _ => failed) fun _ => ?_
      rw [ends_bind, ends_look]
      cases node with
      | regular id =>
        refine ⟨rfl, fun path' id' answer => ?_⟩
        dsimp only at answer
        split at answer
        · cases answer
        · rename_i same
          cases answer
          exact ⟨path, short, way, by rw [← path]; exact here, by simpa using same⟩
      | directory => exact failed
      | symlink absolute target => exact failed
      | special => exact failed

section

variable {names : CopyNames} {undo : Bool} {source : Path} {expectedHash : String} {blind ready : Prop}

theorem created_unlinked {path : Path} {mode : Nat} (created : Folder.Created f g path mode) {other : Path}
    (apart : other ≠ path) : g.names other ≠ some (.regular ⟨f.dev, f.next⟩) := by
  rw [created.names, update_of_ne apart]
  intro linked
  exact Nat.lt_irrefl _ (f.unused other _ linked)

theorem staging_stops (apart : names.Apart) (unseen : f.names names.destination = none ∨ blind) {before : FileId}
    (here : f.names source = some (.regular before)) (created : Folder.Created f g names.temporary 0o600)
    (staging : Staging names before ⟨f.dev, f.next⟩ expectedHash g h) : CopyStops names false source expectedHash blind f h := by
  have old : ∀ id : FileId, id.ino < f.next → h.files id = f.files id := by
    intro id less
    have other : id ≠ ⟨f.dev, f.next⟩ := fun same => by
      rw [same] at less
      exact Nat.lt_irrefl _ less
    rw [staging.files id other, created.files id other]
  have destination : h.names names.destination = f.names names.destination := by
    rw [staging.others _ apart.receiptDestination.symm apart.temporaryDestination.symm, created.names,
      update_of_ne apart.temporaryDestination.symm]
  refine ⟨⟨fun path a b c => ?_, .inr created.absent, old, ?_⟩, ?_⟩
  · rw [staging.others path a c, created.names, update_of_ne c]
  · rw [staging.next, created.next]
    exact Nat.le_succ _
  · rcases staging.place with ⟨_, receipt⟩ | ⟨_, receipt, copied⟩
    · refine .kept ?_ destination
      rw [receipt, created.names, update_of_ne apart.receiptTemporary]
    · have less := f.unused source before here
      have other : before ≠ ⟨f.dev, f.next⟩ := fun same => by
        rw [same] at less
        exact Nat.lt_irrefl _ less
      have from_ := created.files before other
      exact .staged _ rfl unseen (.copy before here (Nat.le_refl _)
        ⟨by rw [copied.content, from_], by rw [copied.mode, from_], copied.hash⟩) receipt destination

theorem owned_hash {id : FileId} (owned : Owned names source expectedHash f g id)
    (kept : ∀ id, id.ino < f.next → g.files id = f.files id) : hashOf (g.files id) = expectedHash := by
  cases owned with
  | receipt here hash => rw [kept id (f.unused _ id here), hash]
  | copy from_ here fresh copied => exact copied.hash

theorem linked_stops (apart : names.Apart) (stops : CopyStops names false source expectedHash blind f g) {id : FileId}
    (receipt : g.names names.receipt = some (.regular id)) (owned : Owned names source expectedHash f g id)
    (linked : Linked names g h) : CopyStops names false source expectedHash blind f h ∧ Completed names expectedHash h := by
  obtain ⟨free, node, here, renamed⟩ := linked
  rw [receipt] at here
  cases here
  have destination : h.names names.destination = some (.regular id) := by
    rw [renamed.names, update_self]
  have frame := stops.1
  have still : h.names names.receipt = some (.regular id) := by
    rw [renamed.names, update_of_ne apart.receiptDestination, receipt]
  have hash : hashOf (h.files id) = expectedHash := by
    rw [renamed.files]
    exact owned_hash owned frame.files
  refine ⟨⟨⟨fun path a b c => ?_, ?_, fun id less => ?_, ?_⟩, ?_⟩, id, destination, still, hash⟩
  · rw [renamed.names, update_of_ne b]
    exact frame.others path a b c
  · rw [renamed.names, update_of_ne apart.temporaryDestination]
    exact frame.temporary
  · rw [renamed.files]
    exact frame.files id less
  · rw [renamed.next]
    exact frame.next
  · have before : f.names names.destination = none := by
      cases stops.2 with
      | kept _ same => rw [← same, free]
      | staged _ _ _ _ _ same => rw [← same, free]
      | published _ _ _ was _ _ => exact was
      | unpublished _ undone => cases undone
      | cleaned undone => cases undone
    refine .published id rfl ?_ before still destination
    cases owned with
    | receipt here hash => exact .receipt here hash
    | copy from_ here fresh copied =>
      exact .copy from_ here fresh ⟨by rw [renamed.files, copied.content], by rw [renamed.files, copied.mode],
        by rw [renamed.files, copied.hash]⟩

theorem publish_stops (attempt : Attempt) (apart : names.Apart) (stops : CopyStops names false source expectedHash blind f g)
    {id : FileId} (receipt : g.names names.receipt = some (.regular id))
    (owned : Owned names source expectedHash f g id) (known : f.names names.receipt = none → ready) :
    Ends (publishCopy attempt names) (CopyAnswers names false source expectedHash blind ready f)
      (CopyStops names false source expectedHash blind f) g := by
  refine (publish_ends attempt names g).mono (fun answer h ends => ?_) (fun h ends => ?_)
  · rcases ends with ⟨rfl, failed⟩ | linked
    · exact stops_answer stops failed
    · obtain ⟨more, completed⟩ := linked_stops apart stops receipt owned linked
      exact ⟨more, fun _ _ => completed, fun _ _ => known⟩
  · rcases ends with rfl | linked
    · exact stops
    · exact (linked_stops apart stops receipt owned linked).1

theorem unstage_stops (apart : names.Apart) (absent : f.names names.temporary = none)
    (stops : CopyStops names false source expectedHash blind f g) :
    CopyStops names false source expectedHash blind f (Folder.unlink names.temporary g).2 ∧
      (Completed names expectedHash g → Completed names expectedHash (Folder.unlink names.temporary g).2) := by
  rcases Folder.unlink_cases names.temporary g with ⟨errno, failed⟩ | ⟨node, _, _, _, renamed⟩
  · rw [failed]
    exact ⟨stops, id⟩
  · generalize (Folder.unlink names.temporary g).2 = h at renamed ⊢
    have same : ∀ path, path ≠ names.temporary → h.names path = g.names path := fun path other => by
      rw [renamed.names, update_of_ne other]
    have receipt := same _ apart.receiptTemporary
    have destination := same _ apart.temporaryDestination.symm
    have frame := stops.1
    refine ⟨⟨⟨fun path a b c => by rw [same path c, frame.others path a b c], .inr absent,
      fun id less => by rw [renamed.files, frame.files id less], by rw [renamed.next]; exact frame.next⟩, ?_⟩, ?_⟩
    · have owned : ∀ id, Owned names source expectedHash f g id → Owned names source expectedHash f h id := by
        intro id owned
        cases owned with
        | receipt here hash => exact .receipt here hash
        | copy from_ here fresh copied =>
          exact .copy from_ here fresh ⟨by rw [renamed.files, copied.content], by rw [renamed.files, copied.mode],
            by rw [renamed.files, copied.hash]⟩
      cases stops.2 with
      | kept a b => exact .kept (by rw [receipt, a]) (by rw [destination, b])
      | staged id copy unseen own a b =>
        exact .staged id copy unseen (owned id own) (by rw [receipt, a]) (by rw [destination, b])
      | published id copy own free a b =>
        exact .published id copy (owned id own) free (by rw [receipt, a]) (by rw [destination, b])
      | unpublished _ undone => cases undone
      | cleaned undone => cases undone
    · rintro ⟨id, here, linked, hash⟩
      exact ⟨id, by rw [destination, here], by rw [receipt, linked], by rw [renamed.files, hash]⟩

theorem publish_stage_ends (attempt : Attempt) (apart : names.Apart)
    (unseen : f.names names.destination = none ∨ blind) (path : Path) {before : FileId} (expected : Expected)
    (here : f.names source = some (.regular before)) (created : Folder.Created f g names.temporary 0o600) (known : ready) :
    Ends (publishStage attempt names path before ⟨f.dev, f.next⟩ expected expectedHash)
      (CopyAnswers names false source expectedHash blind ready f) (CopyStops names false source expectedHash blind f) g := by
  have start : g.names names.temporary = some (.regular ⟨f.dev, f.next⟩) := by
    rw [created.names, update_self]
  have stopped : ∀ after, Staging names before ⟨f.dev, f.next⟩ expectedHash g after →
      CopyStops names false source expectedHash blind f after :=
    fun after staging => staging_stops apart unseen here created staging
  unfold publishStage
  refine (Ends.mono (fill_stage_ends attempt names path before ⟨f.dev, f.next⟩ expected expectedHash g start
    created.empty apart.receiptTemporary (created_unlinked created apart.receiptTemporary))
    (fun answer after ends => ends) stopped).bind fun answer after ends => ?_
  obtain ⟨staging, placed⟩ := ends
  have stops := stopped after staging
  cases answer with
  | some reason => exact stops_answer stops rfl
  | none =>
    have receipt := placed rfl
    refine publish_stops attempt apart stops receipt ?_ fun _ => known
    cases stops.2 with
    | kept same _ =>
      rw [same] at receipt
      exact absurd (f.unused _ _ receipt) (Nat.lt_irrefl _)
    | staged id _ _ owned same _ =>
      rw [receipt] at same
      cases same
      exact owned
    | published id _ owned _ same _ =>
      rw [receipt] at same
      cases same
      exact owned
    | unpublished _ undone => cases undone
    | cleaned undone => cases undone

theorem stage_copy_ends (attempt : Attempt) (apart : names.Apart) (root relative : Path) (expected : Expected)
    (f : Folder) (unseen : f.names names.destination = none ∨ blind)
    (found : ∀ id, SourceReady root relative expected f id → ready) :
    Ends (stageCopy attempt names root relative expected expectedHash)
      (CopyAnswers names false (root ++ relative) expectedHash blind ready f)
      (CopyStops names false (root ++ relative) expectedHash blind f) f := by
  unfold stageCopy
  refine (Ends.mono (open_source_ends attempt root relative expected f) (fun answer g ends => ends)
    (fun g same => by rw [same]; exact stops_here)).bind fun answer g ends => ?_
  obtain ⟨rfl, opened⟩ := ends
  cases answer with
  | none => exact answers_here
  | some at_ =>
    obtain ⟨path, before⟩ := at_
    obtain ⟨rfl, scanned⟩ := opened path before rfl
    refine ends_step stops_here (fun _ _ _ => answers_here) fun _ => ?_
    rcases Folder.open_exclusive_cases names.temporary 0o600 attempt.now g with ⟨errno, failed⟩ | ⟨result, created⟩
    · rw [failed]
      exact answers_here
    · rw [result]
      refine (publish_stage_ends attempt apart unseen (root ++ relative) expected scanned.here created
        (found before scanned)).bind fun answer after done => ?_
      obtain ⟨stops, completed, known⟩ := done
      obtain ⟨unstaged, still⟩ := unstage_stops apart created.absent stops
      exact ends_step stops (fun _ _ _ => ⟨stops, completed, known⟩)
        fun _ => ⟨unstaged, fun applied copy => still (completed applied copy), known⟩

theorem remove_receipt_ends (attempt : Attempt) (already : Bool) (stops : CopyStops names true source expectedHash blind f g)
    (apart : names.Apart) (unseen : g.names names.destination = none ∨ blind) :
    Ends (removeReceipt attempt names already) (CopyAnswers names true source expectedHash blind ready f)
      (CopyStops names true source expectedHash blind f) g := by
  unfold removeReceipt
  refine ends_step stops (fun _ _ _ => stops_answer stops rfl) fun _ => ?_
  rcases Folder.unlink_cases names.receipt g with ⟨errno, failed⟩ | ⟨node, _, _, result, renamed⟩
  · rw [failed]
    exact stops_answer stops rfl
  · rw [result]
    generalize (Folder.unlink names.receipt g).2 = h at renamed ⊢
    have same : ∀ path, path ≠ names.receipt → h.names path = g.names path := fun path other => by
      rw [renamed.names, update_of_ne other]
    have gone : h.names names.receipt = none := by rw [renamed.names, update_self]
    have frame := stops.1
    have more : CopyStops names true source expectedHash blind f h := by
      refine ⟨⟨fun path a b c => by rw [same path a, frame.others path a b c], ?_,
        fun id less => by rw [renamed.files, frame.files id less], by rw [renamed.next]; exact frame.next⟩, ?_⟩
      · rw [same _ apart.receiptTemporary.symm]
        exact frame.temporary
      · have destination := same _ apart.receiptDestination.symm
        cases stops.2 with
        | kept _ kept => exact .cleaned rfl (by rw [← kept]; exact unseen) gone (by rw [destination, kept])
        | staged _ copy => cases copy
        | published _ copy => cases copy
        | unpublished id _ receipt hash there away _ =>
          exact .unpublished id rfl receipt hash there (by rw [destination, away]) (.inr gone)
        | cleaned _ unseen _ kept => exact .cleaned rfl unseen gone (by rw [destination, kept])
    exact ends_step more (fun _ _ _ => stops_answer more rfl)
      fun _ => ⟨more, fun _ copy => (by cases copy), fun _ copy => by cases copy⟩

theorem with_receipt_ends (attempt : Attempt) (apart : names.Apart) (undo : Bool) {receipt : FileId} (f : Folder)
    (here : f.names names.receipt = some (.regular receipt)) (hash : hashOf (f.files receipt) = expectedHash)
    {destination : Option Node} (seen : ∀ node, destination = some node → f.names names.destination = some node)
    (unseen : destination = none → f.names names.destination = none ∨ blind) :
    Ends (withReceipt attempt names undo receipt destination) (CopyAnswers names undo source expectedHash blind ready f)
      (CopyStops names undo source expectedHash blind f) f := by
  unfold withReceipt
  cases destination with
  | none =>
    cases undo with
    | true => exact remove_receipt_ends attempt true stops_here apart (unseen rfl)
    | false =>
      exact publish_stops attempt apart stops_here here (.receipt here hash) fun none => by cases here.symm.trans none
  | some node =>
    have there := seen node rfl
    dsimp only
    by_cases other : node ≠ .regular receipt
    · rw [if_pos other]
      exact answers_here
    rw [if_neg other]
    simp only [ne_eq, not_not] at other
    subst other
    cases undo with
    | false => exact ⟨stops_here, fun _ _ => ⟨receipt, there, here, hash⟩, fun _ _ none => by cases here.symm.trans none⟩
    | true =>
      rw [if_pos rfl]
      refine ends_step stops_here (fun _ _ _ => answers_here) fun _ => ?_
      rcases Folder.unlink_cases names.destination f with ⟨errno, failed⟩ | ⟨node, _, _, result, renamed⟩
      · rw [failed]
        exact answers_here
      · rw [result]
        generalize (Folder.unlink names.destination f).2 = g at renamed ⊢
        have same : ∀ path, path ≠ names.destination → g.names path = f.names path := fun path other => by
          rw [renamed.names, update_of_ne other]
        have stops : CopyStops names true source expectedHash blind f g := by
          refine ⟨⟨fun path _ b _ => same path b, .inl (same _ apart.temporaryDestination),
            fun id _ => by rw [renamed.files], Nat.le_of_eq renamed.next.symm⟩, ?_⟩
          exact .unpublished receipt rfl here hash there (by rw [renamed.names, update_self])
            (.inl (same _ apart.receiptDestination))
        exact ends_step stops (fun _ _ _ => stops_answer stops rfl)
          fun _ => remove_receipt_ends attempt false stops apart
            (.inl (by rw [renamed.names, update_self]))

theorem read_all_ends (attempt : Attempt) (path : Path) (left : Nat) :
    ∀ (offset : Nat) (f : Folder), Ends (readAll attempt path offset left) (fun _ g => g = f) (fun g => g = f) f := by
  induction left with
  | zero =>
    intro offset f
    rw [readAll]
    exact ends_step rfl (fun _ _ _ => rfl) fun _ => rfl
  | succ left ih =>
    intro offset f
    rw [readAll]
    exact ends_step rfl (fun _ _ _ => rfl) fun _ => ih (offset + 1) f

theorem action_hash_ends (attempt : Attempt) (path : Path) (id : FileId) (expected : String) (f : Folder) :
    Ends (actionHashFd attempt path id expected)
      (fun answer g => g = f ∧ (answer = true → hashOf (f.files id) = expected)) (fun g => g = f) f := by
  unfold actionHashFd
  refine ends_step rfl (fun _ _ _ => ⟨rfl, by simp⟩) fun _ => ?_
  rw [ends_bind, ends_look]
  refine (read_all_ends attempt path _ 0 f).bind fun answer g same => ?_
  cases same
  cases answer with
  | true => exact ⟨rfl, by simp⟩
  | false => exact ⟨rfl, by simp⟩

theorem open_receipt_ends (attempt : Attempt) (names : CopyNames) (expectedHash : String) (f : Folder) :
    Ends (openReceipt attempt names expectedHash) (fun answer g => g = f ∧ ∀ id, answer = .held id →
        f.names names.receipt = some (.regular id) ∧ hashOf (f.files id) = expectedHash) (fun g => g = f) f := by
  unfold openReceipt
  refine ends_step rfl (fun _ _ _ => ⟨rfl, by simp⟩) fun _ => ?_
  obtain ⟨same, named⟩ := Folder.open_read_names names.receipt f
  rw [same]
  cases result : (Folder.openRead names.receipt f).1 with
  | error errno => exact ⟨rfl, by simp⟩
  | ok node =>
    have here := named node result
    refine ends_step rfl (fun _ _ _ => ⟨rfl, by simp⟩) fun _ => ?_
    cases node with
    | regular id =>
      refine (action_hash_ends attempt names.receipt id expectedHash f).bind fun answer g ends => ?_
      obtain ⟨rfl, hash⟩ := ends
      cases answer with
      | true =>
        refine ⟨rfl, fun id' held => ?_⟩
        cases held
        exact ⟨here, hash rfl⟩
      | false => exact ⟨rfl, by simp⟩
    | directory => exact ⟨rfl, by simp⟩
    | symlink absolute target => exact ⟨rfl, by simp⟩
    | special => exact ⟨rfl, by simp⟩

theorem copy_locked_ends (attempt : Attempt) (apart : names.Apart) (root relative : Path) (expected : Expected)
    (undo : Bool) (f : Folder) (sees : (∃ fault, attempt.fate (.lstat .destination names.destination) = .refused fault) → blind)
    (scanned : ∀ id, SourceReady root relative expected f id → ready) :
    Ends (copyLocked attempt names root relative expected expectedHash undo)
      (CopyAnswers names undo (root ++ relative) expectedHash blind ready f)
      (CopyStops names undo (root ++ relative) expectedHash blind f) f := by
  unfold copyLocked
  -- The destination as the run sees it: what it is, or nothing.
  have looked : Ends (perform attempt (.lstat .destination names.destination) (Folder.lstat names.destination))
      (fun found g => g = f ∧ (∀ node, found.toOption = some node → f.names names.destination = some node) ∧
        (found.toOption = none → f.names names.destination = none ∨ blind))
      (CopyStops names undo (root ++ relative) expectedHash blind f) f := by
    refine ends_call.mpr ⟨fun _ => ?_, fun fault refused => ?_, fun _ => stops_here⟩
    · obtain ⟨same, seen⟩ := Folder.lstat_names names.destination f
      exact ⟨same, fun node here => by rw [← seen, here], fun none => .inl (by rw [← seen, none])⟩
    · exact ⟨rfl, by simp [Except.toOption], fun _ => .inr (sees ⟨fault, refused⟩)⟩
  refine looked.bind fun found g ends => ?_
  obtain ⟨rfl, seen, unseen⟩ := ends
  refine (Ends.mono (open_receipt_ends attempt names expectedHash g) (fun answer h ends => ends)
    (fun h same => by rw [same]; exact stops_here)).bind fun answer h ends => ?_
  obtain ⟨rfl, held⟩ := ends
  cases answer with
  | changed => exact answers_here
  | held receipt =>
    obtain ⟨here, hash⟩ := held receipt rfl
    exact with_receipt_ends attempt apart undo h here hash seen unseen
  | missing =>
    cases undo with
    | true =>
      exact ⟨stops_here, fun _ copy => (by cases copy), fun _ copy => by cases copy⟩
    | false =>
      dsimp only
      rw [if_neg (by simp)]
      by_cases there : found.toOption.isSome = true
      · rw [if_pos there]
        exact answers_here
      · rw [if_neg there]
        exact stage_copy_ends attempt apart root relative expected h (unseen (by simpa using there)) scanned

end

end SamosaChat.Fs
