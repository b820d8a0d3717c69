import SamosaChat.Fs.CopyUndisturbed

set_option autoImplicit false

namespace SamosaChat.Fs

open Crash

variable {f g h : Folder} {env : Env} {args : CopyArgs} {request : CopyRequest}

inductive View
  | directory
  | file (content : List UInt8) (mode : Nat)
  | symlink (absolute : Bool) (target : Path)
  | special
  deriving DecidableEq

def Folder.view (folder : Folder) (path : Path) : Option View :=
  match folder.names path with
  | none => none
  | some .directory => some .directory
  | some (.regular id) => some (.file (folder.files id).content (folder.files id).mode)
  | some (.symlink absolute target) => some (.symlink absolute target)
  | some .special => some .special

theorem view_same {path : Path} (names : g.names path = f.names path)
    (files : ∀ id, f.names path = some (.regular id) → g.files id = f.files id) : g.view path = f.view path := by
  unfold Folder.view
  rw [names]
  cases here : f.names path with
  | none => rfl
  | some node =>
    cases node with
    | regular id =>
      dsimp only
      rw [files id here]
    | directory => rfl
    | symlink absolute target => rfl
    | special => rfl

-- Two completed copies: the same names with the same bytes and permissions, stages left behind
-- apart, and the destination linked to the receipt in both.
structure SameCopy (request : CopyRequest) (f g : Folder) : Prop where
  view : ∀ path, ¬ Leftover request.places request.operationId path → g.view path = f.view path
  published : ∀ folder ∈ [f, g], ∃ id, folder.names (request.names 0).destination = some (.regular id) ∧
    folder.names (request.names 0).receipt = some (.regular id)

structure Finished (request : CopyRequest) (f g : Folder) : Prop where
  inv : RequestInv request f g
  entered : Entered request.places request.operationId g
  published : ∃ id from_, f.names (request.places.root ++ request.places.source) = some (.regular from_) ∧
    f.names (request.names 0).destination = none ∧ Copied from_ request.expectedHash f g id ∧
    g.names (request.names 0).destination = some (.regular id) ∧ g.names (request.names 0).receipt = some (.regular id)

theorem finished_view (first : Finished request f g) (second : Finished request f h) {path : Path}
    (aside : ¬ Leftover request.places request.operationId path) : h.view path = g.view path := by
  obtain ⟨id, from_, source, free, copied, destination, receipt⟩ := first.published
  obtain ⟨id', from', source', _, copied', destination', receipt'⟩ := second.published
  cases source.symm.trans source'
  have file : (h.files id').content = (g.files id).content ∧ (h.files id').mode = (g.files id).mode :=
    ⟨copied'.content.trans copied.content.symm, copied'.mode.trans copied.mode.symm⟩
  by_cases isReceipt : path = (request.names 0).receipt
  · subst isReceipt
    simp only [Folder.view, receipt, receipt', file]
  by_cases isDestination : path = (request.names 0).destination
  · subst isDestination
    simp only [Folder.view, destination, destination', file]
  cases here : f.names path with
  | some node =>
    have one := first.inv.kept path node isDestination here
    have two := second.inv.kept path node isDestination here
    refine view_same (two.trans one.symm) fun file same => ?_
    cases one.symm.trans same
    have less := f.unused _ _ here
    rw [first.inv.files _ less, second.inv.files _ less]
  | none =>
    have kept : Kept request.places path → ∀ k, Finished request f k → k.names path = some .directory := by
      rintro (rfl | on) k finished
      · exact finished.entered.actions
      · exact finished.entered.way.2.2 path on
    have lock : path = (request.names 0).lock → ∀ k, Finished request f k → k.view path = some (.file [] 0o600) := by
      rintro rfl k finished
      obtain ⟨node, there, other, _⟩ := finished.entered.lock
      rcases finished.inv.made _ ⟨isReceipt, isDestination, aside⟩ here with none | ⟨_, directory⟩ | ⟨_, n, _, at_, rest⟩
      · cases none.symm.trans there
      · cases directory.symm.trans there
        exact absurd rfl other
      · simp only [Folder.view, at_, rest.1, rest.2]
    rcases first.inv.made path ⟨isReceipt, isDestination, aside⟩ here with none | ⟨on, directory⟩ | ⟨locked, _⟩
    · rcases second.inv.made path ⟨isReceipt, isDestination, aside⟩ here with none' | ⟨on, _⟩ | ⟨locked, _⟩
      · simp only [Folder.view, none, none']
      · cases none.symm.trans (kept on g first)
      · have view := lock locked g first
        simp [Folder.view, none] at view
    · simp only [Folder.view, directory, kept on h second]
    · rw [lock locked g first, lock locked h second]

theorem finished_same (first : Finished request f g) (second : Finished request f h) : SameCopy request g h := by
  refine ⟨fun path aside => finished_view first second aside, fun folder inside => ?_⟩
  have linked : ∀ k, Finished request f k → ∃ id, k.names (request.names 0).destination = some (.regular id) ∧
      k.names (request.names 0).receipt = some (.regular id) := by
    intro k finished
    obtain ⟨id, _, _, _, _, destination, receipt⟩ := finished.published
    exact ⟨id, destination, receipt⟩
  rcases List.mem_cons.mp inside with rfl | inside
  · exact linked _ first
  · rw [List.mem_singleton.mp inside]
    exact linked _ second

variable {attempt : Attempt}

theorem undisturbed_sighted (undisturbed : attempt.undisturbed) : Sighted request attempt :=
  fun fault refused => by
    rw [undisturbed] at refused
    cases refused

theorem applied_finished (known : requestOf env f args = some request) (fresh : f.names (request.names 0).receipt = none)
    (inv : RequestInv request f g) (sighted : Sighted request attempt) {answer : CopyResult}
    (answers : (commandCopy attempt env args false g).1 = some answer) (applied : answer.applied = true) :
    Finished request f (commandCopy attempt env args false g).2 := by
  have after := command_inv known fresh inv sighted false
  obtain ⟨other, known', id, destination, receipt, hash⟩ := command_completed answers applied
  cases (inv_request inv known rfl).symm.trans known'
  cases pair : after.pair with
  | taken node there still gone => cases gone.symm.trans receipt
  | absent free gone none => cases gone.symm.trans receipt
  | receipted id' from_ free here less copied entered has aim =>
    cases has.symm.trans receipt
    exact ⟨after, entered, id, from_, here, free, copied, destination, receipt⟩

structure Copyable (request : CopyRequest) (expected : Expected) (f : Folder) : Prop where
  free : f.names (request.names 0).destination = none
  seen : ∃ mid id, RequestInv request f mid ∧ Entered request.places request.operationId mid ∧
    mid.names (request.names 0).destination = none ∧ SourceReady request.places.root request.places.source expected mid id ∧
    hashOf (f.files id) = request.expectedHash

theorem applied_copyable (known : requestOf env f args = some request) (fresh : f.names (request.names 0).receipt = none)
    (sighted : Sighted request attempt) {answer : CopyResult}
    (answers : (commandCopy attempt env args false f).1 = some answer) (applied : answer.applied = true) :
    Copyable request args.expected f := by
  have start : RequestInv request f f := copy_inv_start fresh
  obtain ⟨id, from_, source, free, copied, _⟩ := (applied_finished known fresh start sighted answers applied).published
  obtain ⟨target, reserved_⟩ := request_free known
  rcases (command_ends attempt false f True (fun _ _ _ => trivial)).answered answers with
    ⟨_, failed⟩ | ⟨other, known', mid, before, ⟨_, failed⟩ | ⟨entered, _, _, ready⟩⟩
  · rw [failed] at applied
    cases applied
  · rw [failed] at applied
    cases applied
  · cases known.symm.trans known'
    have inv := prelude_inv target start before
    have unseen := prelude_destination target before free
    obtain ⟨id', scanned⟩ := ready applied rfl (prelude_receipt target before fresh)
    have same := source_old reserved_ inv unseen scanned.here
    cases source.symm.trans same
    refine ⟨free, mid, from_, inv, entered, unseen, scanned, ?_⟩
    rw [← copied.hash, hashOf, hashOf, copied.content]

theorem source_carried (reserved_ : reserved request.places.source = false) {expected : Expected} {id : FileId}
    (free : f.names (request.names 0).destination = none)
    (first : RequestInv request f g) (unseen : g.names (request.names 0).destination = none)
    (scanned : SourceReady request.places.root request.places.source expected g id)
    (second : RequestInv request f h) (entered : Entered request.places request.operationId h) :
    SourceReady request.places.root request.places.source expected h id ∧ h.files id = f.files id := by
  have source := source_old reserved_ first unseen scanned.here
  have less := f.unused _ _ source
  have old := first.files id less
  have other : request.places.root ++ request.places.source ≠ (request.names 0).destination := by
    intro same
    rw [same] at source
    cases free.symm.trans source
  have still := second.kept _ _ other source
  refine ⟨⟨scanned.short, open_kept scanned.way fun path on here => ?_, still, ?_⟩, second.files id less⟩
  · have elsewhere : path ≠ (request.names 0).destination := by
      rintro rfl
      cases unseen.symm.trans here
    cases there : f.names path with
    | some node =>
      have same := first.kept path node elsewhere there
      cases same.symm.trans here
      exact second.kept path _ elsewhere there
    | none =>
      have aside : Aside request.places request.operationId path := by
        obtain ⟨before, some_, start, _, rfl⟩ := on
        have below : ∀ tail : Path, request.places.root ++ before ≠ request.places.root ++ [".samosa-actions"] ++ tail := by
          intro tail same
          rw [List.append_assoc] at same
          obtain ⟨rest, whole⟩ := start
          exact not_in_actions reserved_ (tail ++ rest) (by rw [← whole, List.append_cancel_left same]; rfl)
        exact ⟨below _, elsewhere, fun ⟨pid, same⟩ => below _ same⟩
      rcases first.made path aside there with none | ⟨kept, _⟩ | ⟨_, n, _, file, _⟩
      · cases none.symm.trans here
      · rcases kept with rfl | on
        · exact entered.actions
        · exact entered.way.2.2 path on
      · cases file.symm.trans here
  · rw [second.files id less, ← old]
    exact scanned.unchanged

theorem entered_passable {undo : Bool} (entered : Entered request.places request.operationId f) :
    Passable request.places request.operationId undo f := by
  refine ⟨entered.root, entered.short, entered.plain, entered.way.1, entered.way.2.1, fun path kept => .inl ?_, ?_⟩
  · rcases kept with rfl | on
    · exact entered.actions
    · exact entered.way.2.2 path on
  · obtain ⟨node, here, fine⟩ := entered.lock
    intro node' there
    cases here.symm.trans there
    exact fine

theorem copyable_passable (target : reserved request.places.destination = false) {expected : Expected}
    (copyable : Copyable request expected f) (inv : RequestInv request f g) :
    Passable request.places request.operationId false g := by
  obtain ⟨mid, id, first, entered, unseen, _⟩ := copyable.seen
  have present : ∀ path node, Aside request.places request.operationId path → mid.names path = some node →
      f.names path = some node ∨ f.names path = none := by
    intro path node aside here
    cases there : f.names path with
    | none => exact .inr rfl
    | some node' =>
      have same := first.kept path node' aside.2.1 there
      exact .inl (same.symm.trans here)
  have root : g.isDirectory request.places.root = true := by
    have this := entered.root
    unfold Folder.isDirectory at this ⊢
    rw [inv_root inv, ← inv_root first]
    exact this
  refine ⟨root, entered.short, entered.plain, entered.way.1, entered.way.2.1, fun path kept => ?_, fun node here => ?_⟩
  · have aside : Aside request.places request.operationId path := kept_aside target kept
    have directory : mid.names path = some .directory := by
      rcases kept with rfl | on
      · exact entered.actions
      · exact entered.way.2.2 path on
    rcases present path _ aside directory with there | absent
    · exact .inl (inv.kept path _ aside.2.1 there)
    · rcases inv.made path aside absent with none | ⟨_, here⟩ | ⟨lock, _⟩
      · exact .inr ⟨rfl, none⟩
      · exact .inl here
      · exact absurd lock (kept_below target kept _)
  · have aside : Aside request.places request.operationId (request.names 0).lock := lock_aside target
    obtain ⟨node', locked, fine⟩ := entered.lock
    rcases present _ _ aside locked with there | absent
    · cases (inv.kept _ _ aside.2.1 there).symm.trans here
      exact fine
    · rcases inv.made _ aside absent with none | ⟨kept, _⟩ | ⟨_, n, _, file, _⟩
      · cases none.symm.trans here
      · exact absurd rfl (kept_below target kept _)
      · cases file.symm.trans here
        exact ⟨by simp, by simp⟩

theorem pair_hash {places : CopyPlaces} {operationId expectedHash : String} {id : FileId}
    (pair : CopyPair places operationId expectedHash f g) (free : f.names (operationNames places operationId 0).destination = none)
    (receipt : g.names (operationNames places operationId 0).receipt = some (.regular id)) :
    hashOf (g.files id) = expectedHash ∧ (g.names (operationNames places operationId 0).destination = none ∨
      g.names (operationNames places operationId 0).destination = some (.regular id)) := by
  cases pair with
  | taken node there => cases free.symm.trans there
  | absent _ gone => cases gone.symm.trans receipt
  | receipted id' from_ _ _ _ copied _ has aim =>
    cases has.symm.trans receipt
    exact ⟨copied.hash, aim⟩

theorem copy_again (known : requestOf env f args = some request) (copyable : Copyable request args.expected f)
    (inv : RequestInv request f g) (undisturbed : attempt.undisturbed)
    (temporary : g.names (request.names attempt.pid).temporary = none) :
    ∃ answer, (commandCopy attempt env args false g).1 = some answer ∧ answer.applied = true := by
  obtain ⟨target, reserved_⟩ := request_free known
  have again : requestOf env g args = some request := inv_request inv known rfl
  have progress : Ends (commandCopy attempt env args false) (fun answer _ => answer.applied = true) (fun _ => False) g := by
    refine command_undisturbed undisturbed again (copyable_passable target copyable inv) fun mid before entered => ?_
    have middle := prelude_inv target inv before
    refine copy_locked_undisturbed undisturbed (names_apart target) _ _ _ ?_
    cases receipt : mid.names (request.names 0).receipt with
    | some node =>
      cases middle.pair with
      | taken node there => cases copyable.free.symm.trans there
      | absent _ gone => cases gone.symm.trans receipt
      | receipted id _ _ _ _ copied _ has aim => exact .inr ⟨id, has, copied.hash, aim⟩
    | none =>
      obtain ⟨first, id, inv', _, unseen, scanned, hash⟩ := copyable.seen
      obtain ⟨ready, same⟩ := source_carried reserved_ copyable.free inv' unseen scanned middle entered
      refine .inl ⟨receipt, ?_, ?_, id, ready, by rw [same, hash]⟩
      · cases middle.pair with
        | taken node there => cases copyable.free.symm.trans there
        | absent _ _ none => exact none
        | receipted _ _ _ _ _ _ _ has => cases receipt.symm.trans has
      · rcases before.made _ temporary with none | ⟨kept, _⟩ | ⟨lock, _⟩
        · exact none
        · exact absurd rfl (kept_below target kept _)
        · exact absurd ⟨attempt.pid, lock.symm⟩ (@lock_aside _ _ 0 target).2.2
  exact progress.total

theorem undo_again (known : requestOf env f args = some request) (free : f.names (request.names 0).destination = none)
    (inv : RequestInv request f g) (undisturbed : attempt.undisturbed) :
    (commandCopy attempt env args true g).2.names (request.names 0).receipt = none ∧
      (commandCopy attempt env args true g).2.names (request.names 0).destination = none := by
  obtain ⟨target, reserved_⟩ := request_free known
  have again : requestOf env g args = some request := inv_request inv known rfl
  cases inv.pair with
  | taken node there => cases free.symm.trans there
  | absent _ gone none =>
    rcases command_left attempt true g True (fun _ _ _ => trivial) with same | ⟨other, known', mid, before, after⟩
    · rw [same]
      exact ⟨gone, none⟩
    · cases again.symm.trans known'
      have receipt := prelude_receipt target before gone
      have destination := prelude_destination target before none
      rcases after with same | ⟨_, _, change⟩
      · rw [same]
        exact ⟨receipt, destination⟩
      · cases change with
        | kept a b => exact ⟨a.trans receipt, b.trans destination⟩
        | staged _ copy => cases copy
        | published _ copy => cases copy
        | unpublished _ _ has => cases receipt.symm.trans has
        | cleaned _ _ gone b => exact ⟨gone, b.trans destination⟩
  | receipted id from_ _ here less copied entered has aim =>
    have done := Ends.total (command_undisturbed undisturbed again (entered_passable entered)
      fun mid before _ => by
        have middle := prelude_inv target inv before
        have still := before.kept _ _ has
        obtain ⟨hash, aim⟩ := pair_hash middle.pair free still
        exact undo_locked_undisturbed undisturbed (names_apart target) _ _ _ still hash aim)
    obtain ⟨answer, _, _, gone⟩ := done
    exact gone

def Bookkeeping (request : CopyRequest) (path : Path) : Prop :=
  Kept request.places path ∨ path = (request.names 0).lock ∨ Leftover request.places request.operationId path

theorem undone_names (inv : RequestInv request f g)
    (free : f.names (request.names 0).destination = none) (fresh : f.names (request.names 0).receipt = none)
    (gone : g.names (request.names 0).receipt = none ∧ g.names (request.names 0).destination = none) (path : Path) :
    g.names path = f.names path ∨ Bookkeeping request path ∧ f.names path = none := by
  by_cases isReceipt : path = (request.names 0).receipt
  · rw [isReceipt, gone.1, fresh]
    exact .inl rfl
  by_cases isDestination : path = (request.names 0).destination
  · rw [isDestination, gone.2, free]
    exact .inl rfl
  cases here : f.names path with
  | some node => exact .inl (inv.kept path node isDestination here)
  | none =>
    by_cases leftover : Leftover request.places request.operationId path
    · exact .inr ⟨.inr (.inr leftover), rfl⟩
    rcases inv.made path ⟨isReceipt, isDestination, leftover⟩ here with none | ⟨kept, _⟩ | ⟨lock, _⟩
    · exact .inl none
    · exact .inr ⟨.inl kept, rfl⟩
    · exact .inr ⟨.inr (.inl lock), rfl⟩

-- Crash recovery of copy and undo-copy. No run takes a destination away or changes it, but an
-- undo that finds it to be its receipt with the expected bytes; an applied copy has the expected
-- bytes; and from a folder without this operation's receipt, after any history of runs stopped
-- anywhere, the bytes and names from before are there, an undisturbed copy finishes as an
-- uninterrupted one does, stages left behind apart, and an undisturbed undo leaves neither the
-- destination nor the receipt, and nothing else but the bookkeeping.
theorem copy_recovers (env : Env) (args : CopyArgs) (folder : Folder) (request : CopyRequest)
    (known : requestOf env folder args = some request) :
    (∀ attempt undo node, folder.names (request.names 0).destination = some node →
      (commandCopy attempt env args undo folder).2.names (request.names 0).destination = some node ∨
        undo = true ∧ ∃ id, node = .regular id ∧ folder.names (request.names 0).receipt = some (.regular id) ∧
          hashOf (folder.files id) = request.expectedHash) ∧
    (∀ attempt answer, (commandCopy attempt env args false folder).1 = some answer → answer.applied = true →
      Completed (request.names 0) request.expectedHash (commandCopy attempt env args false folder).2) ∧
    (folder.names (request.names 0).receipt = none → ∀ history, (∀ run ∈ history, Sighted request run.1) →
      let later := recover env args folder history
      (∀ path node, folder.names path = some node → later.names path = some node) ∧
      (∀ id, id.ino < folder.next → later.files id = folder.files id) ∧
      (∀ first answer, first.undisturbed → (commandCopy first env args false folder).1 = some answer →
        answer.applied = true → ∀ last, last.undisturbed → later.names (request.names last.pid).temporary = none →
        (∃ answer, (commandCopy last env args false later).1 = some answer ∧ answer.applied = true) ∧
          SameCopy request (commandCopy first env args false folder).2 (commandCopy last env args false later).2) ∧
      (folder.names (request.names 0).destination = none → ∀ last, last.undisturbed →
        let undone := (commandCopy last env args true later).2
        undone.names (request.names 0).receipt = none ∧ undone.names (request.names 0).destination = none ∧
          (∀ path, undone.names path = folder.names path ∨ Bookkeeping request path ∧ folder.names path = none) ∧
          ∀ id, id.ino < folder.next → undone.files id = folder.files id)) := by
  obtain ⟨target, _⟩ := request_free known
  refine ⟨fun attempt undo node there => command_spares known attempt undo there, fun attempt answer answers applied => ?_,
    fun fresh history sighted => ?_⟩
  · obtain ⟨other, known', completed⟩ := command_completed answers applied
    cases known.symm.trans known'
    exact completed
  have inv : RequestInv request folder (recover env args folder history) := recover_inv known fresh history sighted
  refine ⟨fun path node here => ?_, inv.files, ?_, ?_⟩
  · by_cases destination : path = (request.names 0).destination
    · subst destination
      cases inv.pair with
      | taken node' there still _ =>
        cases there.symm.trans here
        exact still
      | absent free => cases free.symm.trans here
      | receipted _ _ free => cases free.symm.trans here
    · exact inv.kept path node destination here
  · intro first answer calm answers applied last undisturbed temporary
    have start : RequestInv request folder folder := copy_inv_start fresh
    have finished := applied_finished known fresh start (undisturbed_sighted calm) answers applied
    have copyable := applied_copyable known fresh (undisturbed_sighted calm) answers applied
    obtain ⟨answer', answers', applied'⟩ := copy_again known copyable inv undisturbed temporary
    refine ⟨⟨answer', answers', applied'⟩, finished_same finished ?_⟩
    exact applied_finished known fresh inv (undisturbed_sighted undisturbed) answers' applied'
  · intro free last undisturbed
    have gone := undo_again known free inv undisturbed
    have after := command_inv known fresh inv (undisturbed_sighted undisturbed) true
    exact ⟨gone.1, gone.2, undone_names after free fresh gone, after.files⟩

def smallFolder : Folder where
  names := fun path =>
    if path = ["r"] then some .directory else if path = ["r", "a"] then some (.regular ⟨1, 1⟩) else none
  files := fun _ => { content := [104, 105], mtime := 0, mode := 0o644 }
  dev := 1
  next := 2
  unused := by
    intro path id here
    split at here
    · cases here
    · split at here
      · cases here
        decide
      · cases here

def smallEnv : Env where
  cwd := []
  pastEnd := []

def smallArgs : CopyArgs where
  root := some ⟨true, ["r"]⟩
  src := some ⟨true, ["r", "a"]⟩
  dst := some ⟨true, ["r", "b"]⟩
  operationId := some "op-1"
  expectedHash := some (Sha256.hex (Sha256.digest [104, 105]))
  expected := { size := 2, mtime := fun _ => true, dev := 1, ino := 1 }
  haveSize := true
  haveMtime := true
  haveDev := true
  haveIno := true

def smallRequest : CopyRequest where
  places := { root := ["r"], source := ["a"], destination := ["b"] }
  operationId := "op-1"
  expectedHash := Sha256.hex (Sha256.digest [104, 105])

def calm (pid : Nat) : Attempt where
  fate := fun _ => .allowed
  pid := pid
  now := 0

def cutWrite : Attempt where
  fate := fun c => if c = .write (smallRequest.names 1).temporary 0 then .stopped else .allowed
  pid := 1
  now := 0

theorem copy_recovers_small :
    (∃ answer, (commandCopy (calm 2) smallEnv smallArgs false
        (recover smallEnv smallArgs smallFolder [(cutWrite, false)])).1 = some answer ∧ answer.applied = true) ∧
      SameCopy smallRequest (commandCopy (calm 2) smallEnv smallArgs false smallFolder).2
        (commandCopy (calm 2) smallEnv smallArgs false
          (recover smallEnv smallArgs smallFolder [(cutWrite, false)])).2 :=
  ((copy_recovers smallEnv smallArgs smallFolder smallRequest (by decide +kernel)).2.2 (by decide)
    [(cutWrite, false)] (by simp [Sighted, cutWrite])).2.2.1 (calm 2) { applied := true, already := false, reason := none }
    (fun _ => rfl) (by decide +kernel) rfl (calm 2) (fun _ => rfl) (by decide +kernel)

-- The stage of the stopped process stays: copying again does not end in the folder of an
-- uninterrupted copy, and undoing does not leave every other name as it was.
theorem stopped_stage_stays :
    ((commandCopy (calm 2) smallEnv smallArgs false (recover smallEnv smallArgs smallFolder [(cutWrite, false)])).2.names
        (smallRequest.names 1).temporary).isSome = true ∧
      (commandCopy (calm 2) smallEnv smallArgs false smallFolder).2.names (smallRequest.names 1).temporary = none ∧
      ((commandCopy (calm 2) smallEnv smallArgs true (recover smallEnv smallArgs smallFolder [(cutWrite, false)])).2.names
        (smallRequest.names 1).temporary).isSome = true ∧
      smallFolder.names (smallRequest.names 1).temporary = none := by
  decide +kernel

end SamosaChat.Fs
