import SamosaChat.Fs.CopyAttempts

set_option autoImplicit false

namespace SamosaChat.Fs

open Crash

variable {f g h : Folder} {attempt : Attempt}

theorem never_stopped {α : Type} {prog : Run α} {post post' : α → Folder → Prop} {crash : Folder → Prop}
    (total : Ends prog post (fun _ => False) f) (ends : Ends prog post' crash f) :
    Ends prog (fun answer g => post answer g ∧ post' answer g) (fun _ => False) f :=
  (total.and ends).mono (fun _ _ both => both) fun _ both => both.1

variable {id : FileId} {expectedHash : String}

section

variable (undisturbed : attempt.undisturbed)
include undisturbed

theorem enter_undisturbed (use : Use) (create : Bool) (name : Path)
    (passable : f.names name = some .directory ∨ create = true ∧ f.names name = none) :
    Ends (enter attempt use create name) (fun answer _ => answer = true) (fun _ => False) f := by
  have opened : ∀ mid : Folder, mid.names name = some .directory →
      Ends (enter attempt use false name) (fun answer _ => answer = true) (fun _ => False) mid := by
    intro mid here
    unfold enter
    refine (ends_undisturbed undisturbed).mpr ?_
    simp [Folder.openDirectory, Folder.isDirectory, here]
  unfold enter
  cases create with
  | false => exact opened f (passable.resolve_right fun both => by cases both.1)
  | true =>
    rw [if_pos rfl, ends_undisturbed undisturbed]
    rcases passable with here | ⟨_, absent⟩
    · simp only [Folder.mkdir, here]
      exact opened f here
    · have made : (Folder.mkdir name f).2.names name = some .directory := by
        unfold Folder.mkdir
        split
        · simp [Folder.bind]
        · rename_i taken
          rw [absent] at taken
          cases taken
      have ok : (Folder.mkdir name f).1 = .ok () := by
        unfold Folder.mkdir
        split
        · rfl
        · rename_i taken
          rw [absent] at taken
          cases taken
      rw [ok]
      exact opened _ made

theorem descend_undisturbed (use : Use) (create : Bool) (relative : Path) :
    ∀ (directory : Path) (f : Folder), relative ≠ [] → Plain relative → (∀ path, OnTheWay directory relative path →
        f.names path = some .directory ∨ create = true ∧ f.names path = none) →
      Ends (descend attempt use create directory relative) (fun answer _ => answer.isSome = true) (fun _ => False) f := by
  induction relative with
  | nil => exact fun _ _ some_ => absurd rfl some_
  | cons cursor rest ih =>
    intro directory f _ plain way
    have good : badComponent cursor = false := plain cursor (by simp)
    rw [descend, if_neg (by simp [good])]
    by_cases last : rest = []
    · rw [if_pos last]
      exact rfl
    rw [if_neg last]
    have entered := never_stopped
      (enter_undisturbed undisturbed use create (directory ++ [cursor]) (way _ ((on_the_way_cons last).mpr (.inl rfl))))
      (enter_ends attempt use create (directory ++ [cursor]) f)
    refine entered.bind fun answer mid ends => ?_
    obtain ⟨rfl, grown, _⟩ := ends
    refine ih (directory ++ [cursor]) mid last (fun c inside => plain c (List.mem_cons_of_mem _ inside)) fun path on => ?_
    have apart : path ≠ directory ++ [cursor] := by
      obtain ⟨before, some_, _, _, rfl⟩ := on
      intro same
      exact some_ (List.append_cancel_left (same.trans (List.append_nil _).symm))
    rw [grown.outside fun made => apart made.2]
    exact way path ((on_the_way_cons last).mpr (.inr on))

theorem action_parent_undisturbed (use : Use) (root relative : Path) (create : Bool) (some_ : relative ≠ [])
    (plain : Plain relative) (short : textLength relative ≤ pathMax) (way : ∀ path, OnTheWay root relative path →
      f.names path = some .directory ∨ create = true ∧ f.names path = none) :
    Ends (actionParent attempt use root relative create)
      (fun answer g => answer.isSome = true ∧ Grown (fun path => create = true ∧ OnTheWay root relative path) f g ∧
        ∀ parent leaf, answer = some (parent, leaf) → parent ++ [leaf] = root ++ relative ∧ Open g root relative)
      (fun _ => False) f := by
  have total : Ends (actionParent attempt use root relative create) (fun answer _ => answer.isSome = true)
      (fun _ => False) f := by
    unfold actionParent
    rw [if_neg (Nat.not_lt.mpr short)]
    exact (ends_undisturbed undisturbed).mpr (descend_undisturbed undisturbed use create relative root f some_ plain way)
  refine (never_stopped total (action_parent_ends attempt use root relative create f)).mono
    (fun answer g ends => ⟨ends.1, ends.2.1, fun parent leaf found => ?_⟩) fun _ no => no
  obtain ⟨same, _, open_⟩ := ends.2.2 parent leaf found
  exact ⟨same, open_⟩

theorem open_source_undisturbed (root relative : Path) (expected : Expected) (scanned : SourceReady root relative expected f id) :
    Ends (openSource attempt root relative expected) (fun answer g => answer = some (root ++ relative, id) ∧ g = f)
      (fun _ => False) f := by
  have nothing : ∀ path, ¬ (false = true ∧ OnTheWay root relative path) := fun _ made => by cases made.1
  unfold openSource
  refine (action_parent_undisturbed undisturbed .source root relative false scanned.way.1 scanned.way.2.1 scanned.short
    fun path on => .inl (scanned.way.2.2 path on)).bind fun answer g ends => ?_
  obtain ⟨found, grown, at_⟩ := ends
  cases grown_nothing grown nothing
  cases answer with
  | none => cases found
  | some place =>
    obtain ⟨directory, leaf⟩ := place
    have path := (at_ directory leaf rfl).1
    simp only [ends_undisturbed undisturbed, Folder.openRead, scanned.here, ask, ends_bind, ends_look, ends_pure,
      scanned.unchanged, path, Bool.false_eq_true, if_false, and_self]

theorem copy_bytes_undisturbed (source temporary : Path) (stage : FileId) (bytes : List UInt8) :
    ∀ (offset : Nat) (f : Folder),
      Ends (copyBytes attempt source temporary stage offset bytes) (fun answer _ => answer = none) (fun _ => False) f := by
  induction bytes with
  | nil =>
    intro offset f
    rw [copyBytes, ask, ends_undisturbed undisturbed]
    exact rfl
  | cons byte rest ih =>
    intro offset f
    rw [copyBytes, ask, ends_undisturbed undisturbed]
    dsimp only
    rw [ends_undisturbed undisturbed]
    exact ih (offset + 1) _

theorem read_all_undisturbed (path : Path) (left : Nat) : ∀ (offset : Nat) (f : Folder),
      Ends (readAll attempt path offset left) (fun answer g => answer = true ∧ g = f) (fun _ => False) f := by
  induction left with
  | zero =>
    intro offset f
    rw [readAll, ask, ends_undisturbed undisturbed]
    exact ⟨rfl, rfl⟩
  | succ left ih =>
    intro offset f
    rw [readAll, ask, ends_undisturbed undisturbed]
    exact ih (offset + 1) f

theorem open_receipt_undisturbed (names : CopyNames) (expectedHash : String) : Ends (openReceipt attempt names expectedHash)
      (fun answer g => g = f ∧ (f.names names.receipt = none → answer = .missing) ∧
        ∀ id, f.names names.receipt = some (.regular id) → hashOf (f.files id) = expectedHash → answer = .held id)
      (fun _ => False) f := by
  unfold openReceipt
  rw [ends_undisturbed undisturbed]
  cases here : f.names names.receipt with
  | none => simp [Folder.openRead, here]
  | some node =>
    cases node with
    | regular id =>
      simp only [Folder.openRead, here, ask, ends_undisturbed undisturbed]
      have read : Ends (actionHashFd attempt names.receipt id expectedHash)
          (fun answer g => answer = decide (hashOf (f.files id) = expectedHash) ∧ g = f) (fun _ => False) f := by
        unfold actionHashFd
        simp only [ask, ends_undisturbed undisturbed]
        rw [ends_bind, ends_look]
        refine (read_all_undisturbed undisturbed names.receipt _ 0 f).bind fun answer g ends => ?_
        obtain ⟨rfl, rfl⟩ := ends
        exact ⟨rfl, rfl⟩
      refine read.bind fun answer g ends => ?_
      obtain ⟨rfl, rfl⟩ := ends
      by_cases hash : hashOf (g.files id) = expectedHash
      · simp [hash]
      · simp [hash]
    | directory => simp [Folder.openRead, here, ask, ends_undisturbed undisturbed]
    | symlink absolute target => simp [Folder.openRead, here]
    | special => simp [Folder.openRead, here, ask, ends_undisturbed undisturbed]

theorem publish_undisturbed (names : CopyNames) (free : f.names names.destination = none)
    (receipt : f.names names.receipt = some (.regular id)) :
    Ends (publishCopy attempt names) (fun answer _ => answer.applied = true) (fun _ => False) f := by
  unfold publishCopy
  rw [ends_undisturbed undisturbed]
  rw [(Folder.link_ok receipt free).1]
  simp only [ask, ends_undisturbed undisturbed, ends_pure]

theorem fill_stage_undisturbed (names : CopyNames) (source : Path) {before stage : FileId} (expected : Expected)
    (expectedHash : String) (start : f.names names.temporary = some (.regular stage)) (other : before ≠ stage)
    (receipt : f.names names.receipt ≠ some .directory) (size : (f.files before).content.length = expected.size)
    (hash : hashOf (f.files before) = expectedHash) :
    Ends (fillStage attempt names source before stage expected expectedHash) (fun answer _ => answer = none)
      (fun _ => False) f := by
  unfold fillStage
  rw [ends_bind, ends_look]
  refine (never_stopped (copy_bytes_undisturbed undisturbed source names.temporary stage _ 0 f)
    (copy_bytes_ends attempt source names.temporary stage (f.files before).content 0 f)).bind fun answer g ends => ?_
  obtain ⟨rfl, wrote, _⟩ := ends
  dsimp only
  rw [if_neg (by simp [size, hash]), ask, ends_undisturbed undisturbed]
  dsimp only
  rw [ends_bind, ends_look, if_neg (by simp [wrote.files before other]), ends_undisturbed undisturbed]
  simp only [ask, Folder.fchmod, ends_undisturbed undisturbed]
  have renamed : ∀ mid : Folder, mid.names = f.names → (Folder.rename names.temporary names.receipt mid).1 = .ok () :=
    fun mid same => Folder.rename_ok (by rw [same, start]) (by rw [same]; exact receipt)
  rw [renamed]
  · simp only [ends_undisturbed undisturbed, ends_pure]
  · exact wrote.names

theorem stage_copy_undisturbed {names : CopyNames} (apart : names.Apart) (root relative : Path)
    (expected : Expected) (scanned : SourceReady root relative expected f id)
    (hash : hashOf (f.files id) = expectedHash) (temporary : f.names names.temporary = none)
    (receipt : f.names names.receipt = none) (destination : f.names names.destination = none) :
    Ends (stageCopy attempt names root relative expected expectedHash) (fun answer _ => answer.applied = true)
      (fun _ => False) f := by
  unfold stageCopy
  refine (open_source_undisturbed undisturbed root relative expected scanned).bind fun answer g ends => ?_
  obtain ⟨rfl, rfl⟩ := ends
  dsimp only
  rw [ends_undisturbed undisturbed]
  rcases Folder.open_exclusive_cases names.temporary 0o600 attempt.now g with ⟨errno, failed⟩ | ⟨result, created⟩
  · exfalso
    unfold Folder.openExclusive at failed
    rw [temporary] at failed
    cases failed
  rw [result]
  generalize (Folder.openExclusive names.temporary 0o600 attempt.now g).2 = mid at created ⊢
  have less := g.unused _ _ scanned.here
  have other : id ≠ ⟨g.dev, g.next⟩ := fun same => by
    rw [same] at less
    exact Nat.lt_irrefl _ less
  have start : mid.names names.temporary = some (.regular ⟨g.dev, g.next⟩) := by
    rw [created.names, Function.update_self]
  have empty : mid.names names.receipt = none := by
    rw [created.names, Function.update_of_ne apart.receiptTemporary, receipt]
  have free : mid.names names.destination = none := by
    rw [created.names, Function.update_of_ne apart.temporaryDestination.symm, destination]
  have size : (g.files id).content.length = expected.size := by
    have unchanged := scanned.unchanged
    simp only [sourceChanged, Bool.or_eq_false_iff] at unchanged
    simpa using unchanged.1.1.1
  have filled := never_stopped
    (fill_stage_undisturbed undisturbed names (root ++ relative) expected expectedHash start other (by simp [empty])
      (by rw [created.files id other, size]) (by rw [created.files id other, hash]))
    (fill_stage_ends attempt names (root ++ relative) id ⟨g.dev, g.next⟩ expected expectedHash mid start created.empty
      apart.receiptTemporary (created_unlinked created apart.receiptTemporary))
  have published : Ends (publishStage attempt names (root ++ relative) id ⟨g.dev, g.next⟩ expected expectedHash)
      (fun answer _ => answer.applied = true) (fun _ => False) mid := by
    unfold publishStage
    refine filled.bind fun answer after ends => ?_
    obtain ⟨rfl, staging, placed⟩ := ends
    refine publish_undisturbed undisturbed names ?_ (placed rfl)
    rw [staging.others _ apart.receiptDestination.symm apart.temporaryDestination.symm, free]
  dsimp only
  refine published.bind fun answer after applied => ?_
  rw [ends_undisturbed undisturbed]
  exact applied

theorem remove_receipt_undisturbed {names : CopyNames} (already : Bool) (receipt : f.names names.receipt = some (.regular id)) :
    Ends (removeReceipt attempt names already)
      (fun answer g => answer.applied = true ∧ Folder.Renamed f g (Function.update f.names names.receipt none))
      (fun _ => False) f := by
  obtain ⟨result, renamed⟩ := Folder.unlink_ok receipt
  unfold removeReceipt
  rw [ends_undisturbed undisturbed, result]
  simp only [ask, ends_undisturbed undisturbed, ends_pure, true_and]
  exact renamed

theorem copy_locked_undisturbed {names : CopyNames} (apart : names.Apart) (root relative : Path) (expected : Expected)
    (state : (f.names names.receipt = none ∧ f.names names.destination = none ∧ f.names names.temporary = none ∧
        ∃ id, SourceReady root relative expected f id ∧ hashOf (f.files id) = expectedHash) ∨
      ∃ id, f.names names.receipt = some (.regular id) ∧ hashOf (f.files id) = expectedHash ∧
        (f.names names.destination = none ∨ f.names names.destination = some (.regular id))) :
    Ends (copyLocked attempt names root relative expected expectedHash false) (fun answer _ => answer.applied = true)
      (fun _ => False) f := by
  unfold copyLocked
  rw [ends_undisturbed undisturbed]
  obtain ⟨same, seen⟩ := Folder.lstat_names names.destination f
  rw [same, seen]
  refine (open_receipt_undisturbed undisturbed names expectedHash).bind fun answer g ends => ?_
  obtain ⟨rfl, missing, held⟩ := ends
  rcases state with ⟨receipt, destination, temporary, id, scanned, hash⟩ | ⟨id, receipt, hash, destination⟩
  · rw [missing receipt, destination]
    exact stage_copy_undisturbed undisturbed apart root relative expected scanned hash temporary receipt destination
  · rw [held id receipt hash]
    rcases destination with free | linked
    · rw [free]
      exact publish_undisturbed undisturbed names free receipt
    · rw [linked]
      simp only [withReceipt, ne_eq, not_true_eq_false, if_false, Bool.false_eq_true, ends_pure]

theorem undo_locked_undisturbed {names : CopyNames} (apart : names.Apart) (root relative : Path)
    (expected : Expected) (receipt : f.names names.receipt = some (.regular id)) (hash : hashOf (f.files id) = expectedHash)
    (destination : f.names names.destination = none ∨ f.names names.destination = some (.regular id)) :
    Ends (copyLocked attempt names root relative expected expectedHash true)
      (fun answer g => answer.applied = true ∧ g.names names.receipt = none ∧ g.names names.destination = none)
      (fun _ => False) f := by
  unfold copyLocked
  rw [ends_undisturbed undisturbed]
  obtain ⟨same, seen⟩ := Folder.lstat_names names.destination f
  rw [same, seen]
  refine (open_receipt_undisturbed undisturbed names expectedHash).bind fun answer g ends => ?_
  obtain ⟨rfl, _, held⟩ := ends
  rw [held id receipt hash]
  have removed : ∀ (already : Bool) (mid : Folder), mid.names names.receipt = some (.regular id) →
      mid.names names.destination = none →
      Ends (removeReceipt attempt names already)
        (fun answer g => answer.applied = true ∧ g.names names.receipt = none ∧ g.names names.destination = none)
        (fun _ => False) mid := by
    intro already mid here gone
    refine (remove_receipt_undisturbed undisturbed already here).mono (fun answer after ends => ?_) fun _ no => no
    obtain ⟨applied, renamed⟩ := ends
    refine ⟨applied, by rw [renamed.names, Function.update_self], ?_⟩
    rw [renamed.names, Function.update_of_ne apart.receiptDestination.symm, gone]
  rcases destination with free | linked
  · rw [free]
    exact removed true g receipt free
  · rw [linked]
    obtain ⟨result, renamed⟩ := Folder.unlink_ok linked
    simp only [withReceipt, ne_eq, not_true_eq_false, if_false, if_true]
    rw [ends_undisturbed undisturbed, result]
    simp only [ask, ends_undisturbed undisturbed]
    refine removed false _ ?_ ?_
    · rw [renamed.names, Function.update_of_ne apart.receiptDestination, receipt]
    · rw [renamed.names, Function.update_self]

structure Passable (places : CopyPlaces) (operationId : String) (undo : Bool) (f : Folder) : Prop where
  root : f.isDirectory places.root = true
  short : textLength [".samosa-actions", operationId] ≤ pathMax ∧ textLength places.destination ≤ pathMax
  plain : Plain [".samosa-actions", operationId]
  some_ : places.destination ≠ []
  target : Plain places.destination
  way : ∀ path, Kept places path → f.names path = some .directory ∨ undo = false ∧ f.names path = none
  lock : ∀ node, f.names (operationNames places operationId 0).lock = some node → node ≠ .directory ∧
    ∀ absolute target, node ≠ .symlink absolute target

omit undisturbed in
theorem open_create_ok {path : Path} {mode : Nat} {now : Int} {f : Folder}
    (fine : ∀ node, f.names path = some node → node ≠ .directory ∧ ∀ absolute target, node ≠ .symlink absolute target) :
    (Folder.openCreate path mode now f).1 = .ok () := by
  unfold Folder.openCreate
  split
  · rfl
  · rename_i here
    exact absurd rfl (fine _ here).1
  · rename_i absolute target here
    exact absurd rfl ((fine _ here).2 absolute target)
  · rfl

theorem copy_in_root_undisturbed {places : CopyPlaces} {operationId : String} {expected : Expected}
    {undo : Bool} {post : CopyResult → Folder → Prop} (free : reserved places.destination = false)
    (passable : Passable places operationId undo f)
    (locked : ∀ mid, Prelude places operationId f mid → Entered places operationId mid →
      Ends (copyLocked attempt (operationNames places operationId attempt.pid) places.root places.source expected
        expectedHash undo) post (fun _ => False) mid) :
    Ends (copyInRoot attempt places operationId expected expectedHash undo) post (fun _ => False) f := by
  have may : ∀ path, Kept places path → f.names path = some .directory ∨ (!undo) = true ∧ f.names path = none :=
    fun path kept => (passable.way path kept).imp id fun both => ⟨by simp [both.1], both.2⟩
  have ways : ∀ path, (!undo) = true ∧ OnTheWay places.root [".samosa-actions", operationId] path → Kept places path :=
    fun path on => .inl (actions_way.mp on.2)
  have toward : ∀ path, (!undo) = true ∧ OnTheWay places.root places.destination path → Kept places path :=
    fun path on => .inr on.2
  unfold copyInRoot
  rw [ends_undisturbed undisturbed]
  simp only [Folder.openDirectory, passable.root, if_true]
  refine (action_parent_undisturbed undisturbed .receipt places.root [".samosa-actions", operationId] (!undo) (by simp)
    passable.plain passable.short.1 fun path on => may path (.inl (actions_way.mp on))).bind fun anchor g ends => ?_
  obtain ⟨found, first, anchored⟩ := ends
  replace first := first.mono ways
  have onward : ∀ path, OnTheWay places.root places.destination path →
      g.names path = some .directory ∨ (!undo) = true ∧ g.names path = none := by
    intro path on
    rcases first.names path with same | ⟨_, _, here⟩
    · rw [same]
      exact may path (.inr on)
    · exact .inl here
  refine (action_parent_undisturbed undisturbed .destination places.root places.destination (!undo) passable.some_
    passable.target passable.short.2 onward).bind fun destination h ends => ?_
  obtain ⟨aim, second, aimed⟩ := ends
  have grown : Grown (Kept places) f h := first.trans (second.mono toward)
  cases anchor with
  | none => cases found
  | some anchor =>
  cases destination with
  | none => cases aim
  | some destination =>
    obtain ⟨receipt, actions⟩ := anchored anchor.1 anchor.2 rfl
    obtain ⟨target, way⟩ := aimed destination.1 destination.2 rfl
    have names := copy_names_same attempt receipt target
    dsimp only
    rw [names, ends_undisturbed undisturbed]
    have lock : (Folder.openCreate (operationNames places operationId attempt.pid).lock 0o600 attempt.now h).1 = .ok () := by
      apply open_create_ok
      intro node here
      refine passable.lock node ?_
      exact (grown.outside fun kept => kept_below free kept _ rfl).symm.trans here
    rw [lock]
    obtain ⟨before, entered⟩ := lock_entered grown passable.root (open_kept actions fun path _ here => second.kept here)
      passable.short way lock
    simp only [ask, ends_undisturbed undisturbed]
    exact locked _ before entered

theorem command_undisturbed {env : Env} {args : CopyArgs} {request : CopyRequest} {undo : Bool}
    {post : CopyResult → Folder → Prop} (known : requestOf env f args = some request)
    (passable : Passable request.places request.operationId undo f)
    (locked : ∀ mid, Prelude request.places request.operationId f mid → Entered request.places request.operationId mid →
      Ends (copyLocked attempt (request.names attempt.pid) request.places.root request.places.source args.expected
        request.expectedHash undo) post (fun _ => False) mid) :
    Ends (commandCopy attempt env args undo) post (fun _ => False) f := by
  have checked : Ends (checkCopy attempt env args) (fun answer g => answer = .ok request ∧ g = f) (fun _ => False) f := by
    simp only [Ends, check_copy_undisturbed undisturbed env args known, and_self]
  unfold commandCopy
  refine checked.bind fun answer g ends => ?_
  obtain ⟨rfl, rfl⟩ := ends
  exact copy_in_root_undisturbed undisturbed (request_free known).1 passable locked

end

end SamosaChat.Fs
