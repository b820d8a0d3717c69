import SamosaChat.Fs.CopyInv

set_option autoImplicit false

namespace SamosaChat.Fs

variable {f g h : Folder} {places : CopyPlaces} {operationId expectedHash : String}

inductive CopyPair (places : CopyPlaces) (operationId expectedHash : String) (f g : Folder) : Prop
  | taken (node : Node) (there : f.names (operationNames places operationId 0).destination = some node)
      (still : g.names (operationNames places operationId 0).destination = some node)
      (receipt : g.names (operationNames places operationId 0).receipt = none)
  | absent (free : f.names (operationNames places operationId 0).destination = none)
      (receipt : g.names (operationNames places operationId 0).receipt = none)
      (destination : g.names (operationNames places operationId 0).destination = none)
  | receipted (id from_ : FileId) (free : f.names (operationNames places operationId 0).destination = none)
      (here : f.names (places.root ++ places.source) = some (.regular from_)) (fresh : f.next ≤ id.ino)
      (copied : Copied from_ expectedHash f g id) (entered : Entered places operationId g)
      (receipt : g.names (operationNames places operationId 0).receipt = some (.regular id))
      (destination : g.names (operationNames places operationId 0).destination = none ∨
        g.names (operationNames places operationId 0).destination = some (.regular id))

-- What holds of the folder however often copy and undo were run and stopped since `f`.
structure CopyInv (places : CopyPlaces) (operationId expectedHash : String) (f g : Folder) : Prop where
  kept : ∀ path node, path ≠ (operationNames places operationId 0).destination → f.names path = some node →
    g.names path = some node
  made : ∀ path, Aside places operationId path → f.names path = none → g.names path = none ∨
    Kept places path ∧ g.names path = some .directory ∨
    path = (operationNames places operationId 0).lock ∧ LockFile f g path
  files : ∀ id, id.ino < f.next → g.files id = f.files id
  next : f.next ≤ g.next
  pair : CopyPair places operationId expectedHash f g

theorem copy_inv_start (fresh : f.names (operationNames places operationId 0).receipt = none) :
    CopyInv places operationId expectedHash f f := by
  refine ⟨fun _ _ _ here => here, fun _ _ absent => .inl absent, fun _ _ => rfl, Nat.le_refl _, ?_⟩
  cases there : f.names (operationNames places operationId 0).destination with
  | none => exact .absent there fresh there
  | some node => exact .taken node there there fresh

theorem frame_aside {pid : Nat} (frame : CopyFrame (operationNames places operationId pid) f g) {path : Path}
    (aside : Aside places operationId path) : g.names path = f.names path :=
  frame.others path aside.1 aside.2.1 fun same => aside.2.2 ⟨pid, same⟩

theorem entered_frame {pid : Nat} (free : reserved places.destination = false) (entered : Entered places operationId f)
    (frame : CopyFrame (operationNames places operationId pid) f g) : Entered places operationId g := by
  have actions : Kept places (operationNames places operationId 0).actions := .inl rfl
  refine ⟨?_, ?_, entered.short, entered.plain, open_kept entered.way fun path on here => ?_, ?_⟩
  · have root := entered.root
    unfold Folder.isDirectory at root ⊢
    rw [frame_aside frame (root_aside entered.way.1)]
    exact root
  · rw [frame_aside frame (kept_aside free actions)]
    exact entered.actions
  · rw [frame_aside frame (kept_aside free (.inr on))]
    exact here
  · rw [frame_aside frame (lock_aside free)]
    exact entered.lock

theorem entered_prelude (entered : Entered places operationId f) (prelude_ : Prelude places operationId f g) :
    Entered places operationId g := by
  refine ⟨?_, prelude_.kept _ _ entered.actions, entered.short, entered.plain, open_kept entered.way fun path _ here => prelude_.kept _ _ here, ?_⟩
  · have root := entered.root
    unfold Folder.isDirectory at root ⊢
    rw [Bool.or_eq_true, beq_iff_eq] at root ⊢
    exact root.imp id fun here => prelude_.kept _ _ here
  · obtain ⟨node, here, rest⟩ := entered.lock
    exact ⟨node, prelude_.kept _ _ here, rest⟩

theorem prelude_receipt (free : reserved places.destination = false) (prelude_ : Prelude places operationId f g)
    (absent : f.names (operationNames places operationId 0).receipt = none) :
    g.names (operationNames places operationId 0).receipt = none := by
  rcases prelude_.made _ absent with none | ⟨kept, _⟩ | ⟨lock, _⟩
  · exact none
  · exact absurd rfl (@kept_aside _ operationId free _ kept).1
  · exact absurd lock.symm (lock_aside free).1

theorem prelude_destination (free : reserved places.destination = false) (prelude_ : Prelude places operationId f g)
    (absent : f.names (operationNames places operationId 0).destination = none) :
    g.names (operationNames places operationId 0).destination = none := by
  rcases prelude_.made _ absent with none | ⟨kept, _⟩ | ⟨lock, _⟩
  · exact none
  · exact absurd rfl (@kept_aside _ operationId free _ kept).2.1
  · exact absurd lock.symm (@lock_aside _ _ 0 free).2.1

theorem prelude_pair (free : reserved places.destination = false) (pair : CopyPair places operationId expectedHash f g)
    (prelude_ : Prelude places operationId g h) : CopyPair places operationId expectedHash f h := by
  have receipt := prelude_receipt free prelude_
  have destination := prelude_destination free prelude_
  cases pair with
  | taken node there still_ gone => exact .taken node there (prelude_.kept _ _ still_) (receipt gone)
  | absent free_ gone none => exact .absent free_ (receipt gone) (destination none)
  | receipted id from_ free_ here fresh copied entered has aim =>
    have file := prelude_.files id (g.unused _ _ has)
    exact .receipted id from_ free_ here fresh ⟨by rw [file, copied.content], by rw [file, copied.mode],
      by rw [file, copied.hash]⟩ (entered_prelude entered prelude_) (prelude_.kept _ _ has)
      (aim.imp destination fun linked => prelude_.kept _ _ linked)

theorem lock_file_kept {path : Path} (lock : LockFile f g path) (named : h.names path = g.names path)
    (files : ∀ id, id.ino < g.next → h.files id = g.files id) : LockFile f h path := by
  obtain ⟨id, fresh, here, empty, mode⟩ := lock
  have file := files id (g.unused _ _ here)
  exact ⟨id, fresh, by rw [named, here], by rw [file, empty], by rw [file, mode]⟩

theorem prelude_inv (free : reserved places.destination = false) (inv : CopyInv places operationId expectedHash f g)
    (prelude_ : Prelude places operationId g h) : CopyInv places operationId expectedHash f h := by
  refine ⟨fun path node other here => prelude_.kept _ _ (inv.kept path node other here), fun path aside absent => ?_,
    fun id less => ?_, Nat.le_trans inv.next prelude_.next, prelude_pair free inv.pair prelude_⟩
  · rcases inv.made path aside absent with none | ⟨kept, here⟩ | ⟨lock, file⟩
    · rcases prelude_.made path none with none' | ⟨kept, here⟩ | ⟨lock, id, fresh, rest⟩
      · exact .inl none'
      · exact .inr (.inl ⟨kept, here⟩)
      · exact .inr (.inr ⟨lock, id, Nat.le_trans inv.next fresh, rest⟩)
    · exact .inr (.inl ⟨kept, prelude_.kept _ _ here⟩)
    · obtain ⟨id, fresh, here, rest⟩ := file
      exact .inr (.inr ⟨lock, lock_file_kept ⟨id, fresh, here, rest⟩ (by rw [here]; exact prelude_.kept _ _ here)
        prelude_.files⟩)
  · rw [prelude_.files id (Nat.lt_of_lt_of_le less inv.next), inv.files id less]

theorem source_aside (free : reserved places.source = false) {path : Path} (other : path ≠ (operationNames places operationId 0).destination)
    (same : path = places.root ++ places.source) : Aside places operationId path := by
  have below : ∀ tail : Path, places.root ++ places.source ≠ places.root ++ [".samosa-actions"] ++ tail := by
    intro tail equal
    rw [List.append_assoc] at equal
    exact not_in_actions free tail (List.append_cancel_left equal)
  subst same
  exact ⟨below _, other, fun ⟨pid, equal⟩ => below _ equal⟩

theorem source_old (free : reserved places.source = false) (inv : CopyInv places operationId expectedHash f g)
    (unseen : g.names (operationNames places operationId 0).destination = none) {from_ : FileId}
    (here : g.names (places.root ++ places.source) = some (.regular from_)) :
    f.names (places.root ++ places.source) = some (.regular from_) := by
  have other : places.root ++ places.source ≠ (operationNames places operationId 0).destination := by
    intro same
    rw [same, unseen] at here
    cases here
  cases there : f.names (places.root ++ places.source) with
  | some node =>
    rw [inv.kept _ node other there] at here
    exact here
  | none =>
    rcases inv.made _ (source_aside free other rfl) there with none | ⟨_, directory⟩ | ⟨lock, _⟩
    · rw [none] at here
      cases here
    · rw [directory] at here
      cases here
    · have below : places.source = ".samosa-actions" :: [operationId ++ ".lock"] := by
        simp only [operationNames, List.append_assoc] at lock
        exact List.append_cancel_left lock
      exact absurd below (not_in_actions free _)

theorem frame_inv {pid : Nat} (inv : CopyInv places operationId expectedHash f g)
    (frame : CopyFrame (operationNames places operationId pid) g h)
    (fresh : f.names (operationNames places operationId 0).receipt = none)
    (pair : CopyPair places operationId expectedHash f h) : CopyInv places operationId expectedHash f h := by
  refine ⟨fun path node other here => ?_, fun path aside absent => ?_, fun id less => ?_, Nat.le_trans inv.next frame.next, pair⟩
  · have there := inv.kept path node other here
    by_cases temporary : path = (operationNames places operationId pid).temporary
    · subst temporary
      rcases frame.temporary with same | none
      · rw [same, there]
      · rw [none] at there
        cases there
    · rw [frame.others path ?_ other temporary, there]
      rintro rfl
      cases fresh.symm.trans here
  · have same := frame_aside frame aside
    rw [same]
    rcases inv.made path aside absent with none | made | ⟨lock, file⟩
    · exact .inl none
    · exact .inr (.inl made)
    · exact .inr (.inr ⟨lock, lock_file_kept file same frame.files⟩)
  · rw [frame.files id (Nat.lt_of_lt_of_le less inv.next), inv.files id less]

theorem stops_pair {pid : Nat} {undo : Bool} {blind : Prop} (sighted : ¬ blind)
    (reserved_ : reserved places.destination = false) (free : reserved places.source = false)
    (inv : CopyInv places operationId expectedHash f g) (entered : Entered places operationId g)
    (stops : CopyStops (operationNames places operationId pid) undo (places.root ++ places.source) expectedHash blind g h) :
    CopyPair places operationId expectedHash f h := by
  obtain ⟨frame, change⟩ := stops
  have after := entered_frame reserved_ entered frame
  have old : ∀ id from_, f.names (places.root ++ places.source) = some (.regular from_) →
      Copied from_ expectedHash g h id → Copied from_ expectedHash f h id := by
    intro id from_ here copied
    have file := inv.files from_ (f.unused _ _ here)
    exact ⟨by rw [copied.content, file], by rw [copied.mode, file], copied.hash⟩
  have unchanged : ∀ id from_, g.names (operationNames places operationId 0).receipt = some (.regular id) →
      Copied from_ expectedHash f g id → Copied from_ expectedHash f h id := by
    intro id from_ here copied
    have file := frame.files id (g.unused _ _ here)
    exact ⟨by rw [file, copied.content], by rw [file, copied.mode], by rw [file, copied.hash]⟩
  -- A copy made by this run, for a start whose destination was free.
  have copied : ∀ id, f.names (operationNames places operationId 0).destination = none →
      g.names (operationNames places operationId 0).destination = none →
      Owned (operationNames places operationId pid) (places.root ++ places.source) expectedHash g h id →
      h.names (operationNames places operationId 0).receipt = some (.regular id) →
      (h.names (operationNames places operationId 0).destination = none ∨
        h.names (operationNames places operationId 0).destination = some (.regular id)) →
      CopyPair places operationId expectedHash f h := by
    intro id unlinked unseen owned receipt destination
    cases owned with
    | copy from_ here fresh copied =>
      have there := source_old free inv unseen here
      exact .receipted id from_ unlinked there (Nat.le_trans inv.next fresh) (old id from_ there copied) after receipt destination
    | receipt here hash =>
      cases inv.pair with
      | taken _ _ _ gone =>
        cases gone.symm.trans here
      | absent _ gone _ =>
        cases gone.symm.trans here
      | receipted id' from_ _ source fresh copied _ has _ =>
        cases has.symm.trans here
        exact .receipted id from_ unlinked source fresh (unchanged id from_ has copied) after receipt destination
  cases change with
  | kept receipt destination =>
    cases inv.pair with
    | taken node there still gone =>
      exact .taken node there (destination.trans still) (receipt.trans gone)
    | absent unlinked gone none => exact .absent unlinked (receipt.trans gone) (destination.trans none)
    | receipted id from_ unlinked here fresh copied _ has aim =>
      exact .receipted id from_ unlinked here fresh (unchanged id from_ has copied) after (receipt.trans has)
        (aim.imp destination.trans destination.trans)
  | staged id copy unseen owned receipt destination =>
    have none := unseen.resolve_right sighted
    cases inv.pair with
    | taken node _ still _ =>
      cases still.symm.trans none
    | absent unlinked _ _ => exact copied id unlinked none owned receipt (.inl (destination.trans none))
    | receipted _ _ unlinked => exact copied id unlinked none owned receipt (.inl (destination.trans none))
  | published id copy owned none receipt destination =>
    cases inv.pair with
    | taken node _ still _ =>
      cases still.symm.trans none
    | absent unlinked _ _ => exact copied id unlinked none owned receipt (.inr destination)
    | receipted _ _ unlinked => exact copied id unlinked none owned receipt (.inr destination)
  | unpublished id undone receipt hash destination gone left =>
    cases inv.pair with
    | taken _ _ _ none =>
      cases none.symm.trans receipt
    | absent _ none _ =>
      cases none.symm.trans receipt
    | receipted id' from_ unlinked here fresh copied _ has aim =>
      rcases left with same | none
      · exact .receipted id' from_ unlinked here fresh (unchanged id' from_ has copied) after (same.trans has) (.inl gone)
      · exact .absent unlinked none gone
  | cleaned undone unseen gone destination =>
    have none := unseen.resolve_right sighted
    cases inv.pair with
    | taken node _ still _ =>
      cases still.symm.trans none
    | absent unlinked _ _ => exact .absent unlinked gone (destination.trans none)
    | receipted _ _ unlinked => exact .absent unlinked gone (destination.trans none)

end SamosaChat.Fs
