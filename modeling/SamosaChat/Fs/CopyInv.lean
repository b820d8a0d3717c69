import SamosaChat.Fs.CopyRun

set_option autoImplicit false

namespace SamosaChat.Fs

open Crash

variable {f g h : Folder}

def operationNames (places : CopyPlaces) (operationId : String) (pid : Nat) : CopyNames where
  actions := places.root ++ [".samosa-actions"]
  receipt := places.root ++ [".samosa-actions"] ++ [operationId]
  lock := places.root ++ [".samosa-actions"] ++ [operationId ++ ".lock"]
  temporary := places.root ++ [".samosa-actions"] ++ [operationId ++ "-" ++ toString pid ++ ".partial"]
  destination := places.root ++ places.destination

variable {places : CopyPlaces} {operationId : String} {pid : Nat}

theorem longer_name (name more : String) (some_ : more ≠ "") : name ≠ name ++ more := by
  intro same
  have length := congrArg String.length same
  rw [String.length_append] at length
  exact some_ (String.length_eq_zero_iff.mp (by omega))

theorem not_in_actions {relative : Path} (free : reserved relative = false) (path : Path) :
    relative ≠ ".samosa-actions" :: path := by
  intro same
  have taken : ".samosa-actions".toList.isPrefixOf ".samosa-actions".toList = true := by decide
  rw [same, reserved, taken] at free
  cases free

theorem destination_outside (free : reserved places.destination = false) (path : Path) :
    places.root ++ places.destination ≠ places.root ++ [".samosa-actions"] ++ path := by
  intro same
  rw [List.append_assoc] at same
  exact not_in_actions free path (List.append_cancel_left same)

theorem names_apart (free : reserved places.destination = false) : (operationNames places operationId pid).Apart := by
  refine ⟨?_, ?_, ?_⟩
  · intro same
    have cut := List.cons.inj (List.append_cancel_left same)
    rw [String.append_assoc, String.append_assoc] at cut
    refine longer_name operationId ("-" ++ (toString pid ++ ".partial")) ?_ cut.1
    intro empty
    have length := congrArg String.length empty
    simp [String.length_append] at length
  · exact (destination_outside free _).symm
  · exact (destination_outside free _).symm

def Kept (places : CopyPlaces) (path : Path) : Prop :=
  path = places.root ++ [".samosa-actions"] ∨ OnTheWay places.root places.destination path

def Leftover (places : CopyPlaces) (operationId : String) (path : Path) : Prop :=
  ∃ pid, path = (operationNames places operationId pid).temporary

-- A name that is none of the operation's files.
def Aside (places : CopyPlaces) (operationId : String) (path : Path) : Prop :=
  path ≠ (operationNames places operationId 0).receipt ∧ path ≠ (operationNames places operationId 0).destination ∧
    ¬ Leftover places operationId path

theorem kept_below (free : reserved places.destination = false) {path : Path} (kept : Kept places path) (leaf : String) :
    path ≠ places.root ++ [".samosa-actions"] ++ [leaf] := by
  intro same
  rcases kept with rfl | ⟨before, some_, start, less, rfl⟩
  · simp at same
  · rw [List.append_assoc] at same
    have cut := List.append_cancel_left same
    obtain ⟨rest, whole⟩ := start
    refine not_in_actions free ([leaf] ++ rest) ?_
    rw [← whole, cut]
    rfl

theorem kept_aside (free : reserved places.destination = false) {path : Path} (kept : Kept places path) :
    Aside places operationId path := by
  refine ⟨kept_below free kept _, ?_, fun ⟨pid, same⟩ => kept_below free kept _ same⟩
  rcases kept with rfl | ⟨before, _, _, less, rfl⟩
  · intro same
    exact destination_outside free [] (by rw [List.append_nil]; exact same.symm)
  · exact fun same => less (List.append_cancel_left same)

theorem lock_aside (free : reserved places.destination = false) :
    Aside places operationId (operationNames places operationId pid).lock := by
  refine ⟨?_, (destination_outside free _).symm, ?_⟩
  · intro same
    have cut := List.cons.inj (List.append_cancel_left same)
    exact longer_name operationId ".lock" (by decide) cut.1.symm
  · rintro ⟨other, same⟩
    have cut := (List.cons.inj (List.append_cancel_left same)).1
    rw [String.append_assoc, String.append_assoc] at cut
    have tail := congrArg String.toList cut
    rw [String.toList_append, String.toList_append] at tail
    have first := congrArg List.head? (List.append_cancel_left tail)
    rw [String.toList_append] at first
    revert first
    simp

theorem root_aside (some_ : places.destination ≠ []) : Aside places operationId places.root := by
  refine ⟨?_, ?_, ?_⟩
  · simp [operationNames]
  · simp [operationNames, some_]
  · rintro ⟨pid, same⟩
    simp [operationNames] at same

theorem copy_names_same (attempt : Attempt) {anchor destination : Path × String}
    (receipt : anchor.1 ++ [anchor.2] = places.root ++ [".samosa-actions", operationId])
    (target : destination.1 ++ [destination.2] = places.root ++ places.destination) :
    copyNames attempt operationId anchor destination = operationNames places operationId attempt.pid := by
  have cut : anchor.1 = places.root ++ [".samosa-actions"] ∧ anchor.2 = operationId := by
    have split_ : places.root ++ [".samosa-actions", operationId] =
        (places.root ++ [".samosa-actions"]) ++ [operationId] := by simp
    rw [split_] at receipt
    obtain ⟨front, back⟩ := List.append_inj' receipt rfl
    exact ⟨front, (List.cons.inj back).1⟩
  simp only [copyNames, operationNames, cut.1, cut.2, target]

theorem actions_way {path : Path} :
    OnTheWay places.root [".samosa-actions", operationId] path ↔ path = places.root ++ [".samosa-actions"] := by
  rw [on_the_way_cons (by simp)]
  exact ⟨fun on => on.resolve_right on_the_way_leaf, .inl⟩

-- A lock file made since `f`: empty, readable to the owner only.
def LockFile (f g : Folder) (path : Path) : Prop :=
  ∃ id : FileId, f.next ≤ id.ino ∧ g.names path = some (.regular id) ∧ (g.files id).content = [] ∧
    (g.files id).mode = 0o600

structure Prelude (places : CopyPlaces) (operationId : String) (f g : Folder) : Prop where
  kept : ∀ path node, f.names path = some node → g.names path = some node
  made : ∀ path, f.names path = none → g.names path = none ∨ Kept places path ∧ g.names path = some .directory ∨
    path = (operationNames places operationId 0).lock ∧ LockFile f g path
  files : ∀ id, id.ino < f.next → g.files id = f.files id
  next : f.next ≤ g.next

theorem Prelude.refl : Prelude places operationId f f :=
  ⟨fun _ _ here => here, fun _ absent => .inl absent, fun _ _ => rfl, Nat.le_refl _⟩

theorem grown_prelude {made : Path → Prop} (grown : Grown made f g) (inside : ∀ path, made path → Kept places path) :
    Prelude places operationId f g := by
  refine ⟨fun path node here => grown.kept here, fun path absent => ?_, fun _ _ => by rw [grown.files],
    Nat.le_of_eq grown.next.symm⟩
  rcases grown.names path with same | ⟨made_, _, here⟩
  · exact .inl (by rw [same, absent])
  · exact .inr (.inl ⟨inside path made_, here⟩)

theorem created_prelude {mode : Nat} (before : Grown (Kept places) f g)
    (created : Folder.Created g h (operationNames places operationId 0).lock mode) (private_ : mode = 0o600) :
    Prelude places operationId f h := by
  subst private_
  have others : ∀ path, path ≠ (operationNames places operationId 0).lock → h.names path = g.names path :=
    fun path other => by rw [created.names, Function.update_of_ne other]
  have old : ∀ id : FileId, id.ino < f.next → h.files id = f.files id := by
    intro id less
    rw [created.files id, before.files]
    rintro rfl
    rw [before.next] at less
    exact Nat.lt_irrefl _ less
  refine ⟨fun path node here => ?_, fun path absent => ?_, old, ?_⟩
  · rw [others path]
    · exact before.kept here
    · rintro rfl
      have there := before.kept here
      rw [created.absent] at there
      cases there
  · by_cases lock : path = (operationNames places operationId 0).lock
    · subst lock
      exact .inr (.inr ⟨rfl, ⟨g.dev, g.next⟩, Nat.le_of_eq before.next.symm,
        by rw [created.names, Function.update_self], created.empty, created.mode⟩)
    · rw [others path lock]
      rcases before.names path with same | ⟨made_, _, here⟩
      · exact .inl (by rw [same, absent])
      · exact .inr (.inl ⟨made_, here⟩)
  · rw [created.next, before.next]
    exact Nat.le_succ _

structure Entered (places : CopyPlaces) (operationId : String) (f : Folder) : Prop where
  root : f.isDirectory places.root = true
  actions : f.names (operationNames places operationId 0).actions = some .directory
  short : textLength [".samosa-actions", operationId] ≤ pathMax ∧ textLength places.destination ≤ pathMax
  plain : Plain [".samosa-actions", operationId]
  way : Open f places.root places.destination
  lock : ∃ node, f.names (operationNames places operationId 0).lock = some node ∧ node ≠ .directory ∧
    ∀ absolute target, node ≠ .symlink absolute target

theorem open_kept {directory relative : Path} (way : Open f directory relative)
    (kept : ∀ path, OnTheWay directory relative path → f.names path = some .directory → g.names path = some .directory) :
    Open g directory relative :=
  ⟨way.1, way.2.1, fun path on => kept path on (way.2.2 path on)⟩

theorem open_create_entered (path : Path) (mode : Nat) (now : Int) (f : Folder)
    (opened : (Folder.openCreate path mode now f).1 = .ok ()) :
    ∃ node, (Folder.openCreate path mode now f).2.names path = some node ∧ node ≠ .directory ∧
      ∀ absolute target, node ≠ .symlink absolute target := by
  unfold Folder.openCreate at opened ⊢
  cases here : f.names path with
  | none =>
    refine ⟨.regular ⟨f.dev, f.next⟩, ?_, by simp, by simp⟩
    simp [Folder.create]
  | some node =>
    rw [here] at opened
    cases node with
    | directory => cases opened
    | symlink absolute target => cases opened
    | regular id => exact ⟨_, here, by simp, by simp⟩
    | special => exact ⟨_, here, by simp, by simp⟩

theorem lock_entered {now : Int} (grown : Grown (Kept places) f g) (root : f.isDirectory places.root = true)
    (actions : Open g places.root [".samosa-actions", operationId])
    (short : textLength [".samosa-actions", operationId] ≤ pathMax ∧ textLength places.destination ≤ pathMax)
    (way : Open g places.root places.destination)
    (opened : (Folder.openCreate (operationNames places operationId pid).lock 0o600 now g).1 = .ok ()) :
    Prelude places operationId f (Folder.openCreate (operationNames places operationId pid).lock 0o600 now g).2 ∧
      Entered places operationId (Folder.openCreate (operationNames places operationId pid).lock 0o600 now g).2 := by
  have lock := open_create_entered _ _ _ _ opened
  have locked : Prelude places operationId f
      (Folder.openCreate (operationNames places operationId pid).lock 0o600 now g).2 ∧
      ∀ path node, g.names path = some node →
        (Folder.openCreate (operationNames places operationId pid).lock 0o600 now g).2.names path = some node := by
    rcases Folder.open_create_cases (operationNames places operationId pid).lock 0o600 now g with same | created
    · rw [same]
      exact ⟨grown_prelude grown fun _ made => made, fun _ _ here => here⟩
    · refine ⟨created_prelude grown created rfl, fun path node here => ?_⟩
      rw [created.names, Function.update_of_ne, here]
      rintro rfl
      rw [created.absent] at here
      cases here
  generalize (Folder.openCreate (operationNames places operationId pid).lock 0o600 now g).2 = mid at lock locked ⊢
  refine ⟨locked.1, ?_, ?_, short, actions.2.1, open_kept way fun path _ here => locked.2 path _ here, lock⟩
  · unfold Folder.isDirectory at root ⊢
    rw [Bool.or_eq_true, beq_iff_eq] at root ⊢
    exact root.imp id fun here => locked.2 _ _ (grown.kept here)
  · exact locked.2 _ _ (actions.2.2 _ (actions_way.mpr rfl))

variable {expected : Expected} {expectedHash : String} {blind : Prop} {undo : Bool}

def RunStops (places : CopyPlaces) (operationId : String) (pid : Nat) (undo : Bool) (expectedHash : String) (blind : Prop)
    (f g : Folder) : Prop :=
  ∃ mid, Prelude places operationId f mid ∧ (g = mid ∨ Entered places operationId mid ∧
    CopyStops (operationNames places operationId pid) undo (places.root ++ places.source) expectedHash blind mid g)

def RunAnswers (places : CopyPlaces) (operationId : String) (pid : Nat) (undo : Bool) (expectedHash : String)
    (blind : Prop) (expected : Expected) (f : Folder) (answer : CopyResult) (g : Folder) : Prop :=
  ∃ mid, Prelude places operationId f mid ∧ (g = mid ∧ answer.applied = false ∨ Entered places operationId mid ∧
    CopyAnswers (operationNames places operationId pid) undo (places.root ++ places.source) expectedHash blind
      (∃ id, SourceReady places.root places.source expected mid id) mid answer g)

theorem refused_run {reason : String} (prelude_ : Prelude places operationId f g) :
    RunAnswers places operationId pid undo expectedHash blind expected f (notApplied reason) g :=
  ⟨g, prelude_, .inl ⟨rfl, rfl⟩⟩

theorem stopped_run (prelude_ : Prelude places operationId f g) : RunStops places operationId pid undo expectedHash blind f g :=
  ⟨g, prelude_, .inl rfl⟩

theorem copy_in_root_ends (attempt : Attempt) (expected : Expected) (free : reserved places.destination = false) (f : Folder)
    (sees : (∃ fault, attempt.fate (.lstat .destination (operationNames places operationId attempt.pid).destination) =
      .refused fault) → blind) : Ends (copyInRoot attempt places operationId expected expectedHash undo)
      (RunAnswers places operationId attempt.pid undo expectedHash blind expected f)
      (RunStops places operationId attempt.pid undo expectedHash blind f) f := by
  unfold copyInRoot
  refine ends_step (stopped_run Prelude.refl) (fun _ _ _ => refused_run Prelude.refl) fun _ => ?_
  unfold Folder.openDirectory
  by_cases root : f.isDirectory places.root = true
  swap
  · rw [if_neg root]
    exact refused_run Prelude.refl
  rw [if_pos root]
  have ways : ∀ path, (!undo) = true ∧ OnTheWay places.root [".samosa-actions", operationId] path → Kept places path :=
    fun path on => .inl (actions_way.mp on.2)
  have toward : ∀ path, (!undo) = true ∧ OnTheWay places.root places.destination path → Kept places path :=
    fun path on => .inr on.2
  refine (Ends.mono (action_parent_ends attempt .receipt places.root [".samosa-actions", operationId] (!undo) f)
    (fun answer g ends => ends) (fun g grown => stopped_run (grown_prelude grown ways))).bind fun anchor g ends => ?_
  obtain ⟨first, anchored⟩ := ends
  replace first := first.mono ways
  refine (Ends.mono (action_parent_ends attempt .destination places.root places.destination (!undo) g)
    (fun answer h ends => ends)
    (fun h grown => stopped_run (grown_prelude (first.trans (grown.mono toward)) fun _ made => made))).bind
    fun destination h ends => ?_
  obtain ⟨second, aimed⟩ := ends
  have grown : Grown (Kept places) f h := first.trans (second.mono toward)
  have ready : Prelude places operationId f h := grown_prelude grown fun _ made => made
  cases anchor with
  | none => exact refused_run ready
  | some anchor =>
  cases destination with
  | none => exact refused_run ready
  | some destination =>
    obtain ⟨receipt, short, actions⟩ := anchored anchor.1 anchor.2 rfl
    obtain ⟨target, shorter, way⟩ := aimed destination.1 destination.2 rfl
    have names := copy_names_same attempt receipt target
    dsimp only
    rw [names]
    refine ends_step (stopped_run ready) (fun _ _ _ => refused_run ready) fun _ => ?_
    cases opened : (Folder.openCreate (operationNames places operationId attempt.pid).lock 0o600 attempt.now h).1 with
    | error errno =>
      refine refused_run ?_
      rcases Folder.open_create_cases (operationNames places operationId attempt.pid).lock 0o600 attempt.now h with
        same | created
      · rw [same]
        exact ready
      · exact created_prelude grown created rfl
    | ok _ =>
      obtain ⟨locked, entered⟩ := lock_entered grown root
        (open_kept actions fun path _ here => second.kept here) ⟨short, shorter⟩ way opened
      generalize (Folder.openCreate (operationNames places operationId attempt.pid).lock 0o600 attempt.now h).2 = mid
        at locked entered ⊢
      refine ends_step (stopped_run locked) (fun _ _ _ => refused_run locked) fun _ => ?_
      exact (copy_locked_ends attempt (names_apart free) places.root places.source expected undo mid sees
        (fun id scanned => ⟨id, scanned⟩)).mono
        (fun answer after ends => ⟨mid, locked, .inr ⟨entered, ends⟩⟩)
        (fun after ends => ⟨mid, locked, .inr ⟨entered, ends⟩⟩)

end SamosaChat.Fs
