import SamosaChat.Attachments.Store
import SamosaChat.Lib.Runs

set_option autoImplicit false

namespace SamosaChat.Attachments

open Utf8 Text Durable Runs Function

structure Kept (world : World) : Prop where
  -- What was accepted is there until it is deleted, or the grace period is over and nothing refers to it.
  accepted : ∀ id upload, world.uploads id = some upload →
    world.references id = true ∨ world.clock < upload.time + graceSeconds → get world id = some upload.content
  referenced : ∀ id, world.references id = true → (get world id).isSome = true
  whole : ∀ id file, world.files id = some file → (world.blobs (id, file.extension)).isSome = true

structure Unnamed (world : World) (id : String) (mediaType : Bytes) : Prop where
  files : ∀ file, world.files id = some file → file.extension ≠ attachmentBlobExtension mediaType
  uploads : ∀ i upload, world.stages i = .stored upload → upload.id = id →
    upload.extension ≠ attachmentBlobExtension mediaType

def Good (world : World) : Event → Prop
  -- No other content has the same SHA-256.
  | .publish _ upload => ∀ content ∈ world.contents, attachmentHashHex content = upload.id → content = upload.content
  -- A sweep unlinks the metadata that it read, and no upload has found that metadata there since it was written.
  | .unlinkMeta i => ∀ now id mtime mediaType, world.stages i = .expired now id mtime mediaType →
      ∀ file, world.files id = some file → file.referencedAt = none ∧
        ∀ upload, world.uploads id = some upload → upload.time ≤ mtime
  -- Nobody has come back to the id between the two unlinks.
  | .unlinkBlob i =>
    (∀ now id mediaType, world.stages i = .swept now id mediaType → Unnamed world id mediaType) ∧
      ∀ id mediaType, world.stages i = .deleted id mediaType → Unnamed world id mediaType
  -- What was loaded to be marked is still there.
  | .mark i _ _ => ∀ id loaded, world.stages i = .marking id loaded →
      ∃ file, world.files id = some file ∧ file.extension = attachmentBlobExtension loaded.mediaType
  | _ => True

def Standing (world : World) (i : Nat) : Stage → Prop
  | .storing upload => world.files upload.id = none ∧ world.locks (attachmentShard upload.id) = some i ∧
      upload.content ∈ world.contents
  | .stored upload => world.files upload.id = none ∧ world.locks (attachmentShard upload.id) = some i ∧
      upload.content ∈ world.contents ∧ world.blobs (upload.id, upload.extension) = some upload.content
  | .sweeping now => now ≤ world.clock
  | .statted now _ _ => now ≤ world.clock
  | .expired now _ mtime _ => now ≤ world.clock ∧ mtime + graceSeconds ≤ now
  | .swept now _ _ => now ≤ world.clock
  | _ => True

structure Inv (world : World) : Prop where
  distinct : ∀ a ∈ world.contents, ∀ b ∈ world.contents, attachmentHashHex a = attachmentHashHex b → a = b
  blobs : ∀ id extension content, world.blobs (id, extension) = some content →
    content ∈ world.contents ∧ attachmentHashHex content = id
  whole : ∀ id file, world.files id = some file → (world.blobs (id, file.extension)).isSome = true
  uploads : ∀ id upload, world.uploads id = some upload →
    (upload.content ∈ world.contents ∧ attachmentHashHex upload.content = id) ∧
      (world.references id = true ∨ world.clock < upload.time + graceSeconds → (world.files id).isSome = true)
  references : ∀ id, world.references id = true → ∃ file, world.files id = some file ∧ file.referencedAt.isSome = true
  stages : ∀ i, Standing world i (world.stages i)

variable {i : Nat} {upload : Upload} {id : String}

section Steps

variable {world : World}

theorem kept_inv (inv : Inv world) : Kept world where
  accepted := by
    intro id upload accepted protected_
    obtain ⟨⟨member, hash⟩, there⟩ := inv.uploads id upload accepted
    obtain ⟨file, found⟩ := Option.isSome_iff_exists.mp (there protected_)
    obtain ⟨content, stored⟩ := Option.isSome_iff_exists.mp (inv.whole id file found)
    obtain ⟨other, same⟩ := inv.blobs id _ content stored
    rw [get, found, Option.bind_some, stored, inv.distinct content other upload.content member (same.trans hash.symm)]
  referenced := by
    intro id refers
    obtain ⟨file, found, _⟩ := inv.references id refers
    rw [get, found, Option.bind_some]
    exact inv.whole id file found
  whole := inv.whole

theorem inv_stage (inv : Inv world) (i : Nat) {stage : Stage} (standing : Standing world i stage) : Inv (world.stage i stage) where
  distinct := inv.distinct
  blobs := inv.blobs
  whole := inv.whole
  uploads := inv.uploads
  references := inv.references
  stages := by
    intro j
    change Standing world j (update world.stages i stage j)
    by_cases own : j = i
    · subst own
      rw [update_self]
      exact standing
    · rw [update_of_ne own]
      exact inv.stages j

def Stage.holds : Stage → Option Upload
  | .storing upload => some upload
  | .stored upload => some upload
  | _ => none

theorem holds_lock {stage : Stage} (standing : Standing world i stage) (holds : stage.holds = some upload) :
    world.files upload.id = none ∧ world.locks (attachmentShard upload.id) = some i := by
  cases stage with
  | storing _ =>
    cases holds
    exact ⟨standing.1, standing.2.1⟩
  | stored _ =>
    cases holds
    exact ⟨standing.1, standing.2.1⟩
  | _ => cases holds

theorem standing_frame {next : World} {stage : Stage} (standing : Standing world i stage)
    (clock : world.clock ≤ next.clock) (contents : ∀ content ∈ world.contents, content ∈ next.contents)
    (held : ∀ upload, stage.holds = some upload → next.files upload.id = world.files upload.id ∧
      next.locks (attachmentShard upload.id) = world.locks (attachmentShard upload.id)) (blobs : ∀ upload, stage = .stored upload →
      next.blobs (upload.id, upload.extension) = world.blobs (upload.id, upload.extension)) : Standing next i stage := by
  cases stage with
  | storing upload =>
    obtain ⟨files, locks⟩ := held upload rfl
    exact ⟨files.trans standing.1, locks.trans standing.2.1, contents _ standing.2.2⟩
  | stored upload =>
    obtain ⟨files, locks⟩ := held upload rfl
    exact ⟨files.trans standing.1, locks.trans standing.2.1, contents _ standing.2.2.1, (blobs upload rfl).trans standing.2.2.2⟩
  | sweeping now => exact Nat.le_trans standing clock
  | statted now id mtime => exact Nat.le_trans standing clock
  | expired now id mtime mediaType => exact ⟨Nat.le_trans standing.1 clock, standing.2⟩
  | swept now id mediaType => exact Nat.le_trans standing clock
  | _ => trivial

theorem locked_apart (inv : Inv world) {j : Nat} (different : j ≠ i) {other : Upload}
    (held : world.locks (attachmentShard upload.id) = some i) (holds : (world.stages j).holds = some other) :
    attachmentShard other.id ≠ attachmentShard upload.id := by
  intro same
  have lock := (holds_lock (inv.stages j) holds).2
  rw [same, held] at lock
  exact different (Option.some.inj lock).symm

theorem shard_id {other : Upload} (apart : attachmentShard other.id ≠ attachmentShard upload.id) : other.id ≠ upload.id :=
  fun same => apart (by rw [same])

section Preserved

variable (inv : Inv world)
include inv

theorem inv_tick (seconds : Nat) : Inv (step world (.tick seconds)) where
  distinct := inv.distinct
  blobs := inv.blobs
  whole := inv.whole
  uploads := by
    intro id upload accepted
    obtain ⟨own, there⟩ := inv.uploads id upload accepted
    refine ⟨own, ?_⟩
    intro protected_
    apply there
    cases protected_ with
    | inl refers => exact .inl refers
    | inr young =>
      change world.clock + seconds < _ at young
      exact .inr (by omega)
  references := inv.references
  stages := by
    intro i
    exact standing_frame (inv.stages i) (Nat.le_add_right _ _) (fun _ member => member) (fun _ _ => ⟨rfl, rfl⟩)
      (fun _ _ => rfl)

theorem inv_accept (member : upload.content ∈ world.contents)
    (there : (world.files upload.id).isSome = true) : Inv (world.accept upload) where
  distinct := inv.distinct
  blobs := inv.blobs
  whole := inv.whole
  uploads := by
    intro id accepted found
    rcases update_cases found with ⟨rfl, ⟨⟩⟩ | ⟨_, found⟩
    · exact ⟨⟨member, upload.hashed⟩, fun _ => there⟩
    · exact inv.uploads id accepted found
  references := inv.references
  stages := inv.stages

theorem inv_files {file : MetaFile} (stored : (world.blobs (id, file.extension)).isSome = true)
    (free : ∀ i upload, (world.stages i).holds = some upload → upload.id ≠ id)
    (marked : world.references id = true → file.referencedAt.isSome = true) :
    Inv { world with files := update world.files id (some file) } where
  distinct := inv.distinct
  blobs := inv.blobs
  whole := by
    intro other found_ found
    rcases update_cases found with ⟨rfl, ⟨⟩⟩ | ⟨_, found⟩
    · exact stored
    · exact inv.whole other found_ found
  uploads := by
    intro other accepted found
    obtain ⟨content, there⟩ := inv.uploads other accepted found
    refine ⟨content, ?_⟩
    intro protected_
    change (update world.files id (some file) other).isSome = true
    by_cases own : other = id
    · subst own
      rw [update_self]
      rfl
    · rw [update_of_ne own]
      exact there protected_
  references := by
    intro other refers
    change ∃ found, update world.files id (some file) other = some found ∧ _
    by_cases own : other = id
    · subst own
      rw [update_self]
      exact ⟨file, rfl, marked refers⟩
    · rw [update_of_ne own]
      exact inv.references other refers
  stages := by
    intro i
    apply standing_frame (inv.stages i)
    case clock => exact Nat.le_refl _
    case contents => exact fun _ member => member
    case held => exact fun upload holds => ⟨update_of_ne (free i upload holds) _ _, rfl⟩
    case blobs => exact fun _ _ => rfl

theorem inv_blob (member : upload.content ∈ world.contents) :
    Inv { world with
      blobs := update world.blobs (upload.id, upload.extension) (some upload.content) } where
  distinct := inv.distinct
  blobs := by
    intro id extension content stored
    rcases update_cases stored with ⟨own, ⟨⟩⟩ | ⟨_, stored⟩
    · cases own
      exact ⟨member, upload.hashed⟩
    · exact inv.blobs id extension content stored
  whole := by
    intro id file found
    change (update world.blobs _ _ (id, file.extension)).isSome = true
    by_cases own : (id, file.extension) = (upload.id, upload.extension)
    · rw [own, update_self]
      rfl
    · rw [update_of_ne own]
      exact inv.whole id file found
  uploads := inv.uploads
  references := inv.references
  stages := by
    intro i
    cases stage : world.stages i with
    | stored other =>
      have standing := inv.stages i
      rw [stage] at standing
      refine ⟨standing.1, standing.2.1, standing.2.2.1, ?_⟩
      change update world.blobs _ _ (other.id, other.extension) = some other.content
      by_cases own : (other.id, other.extension) = (upload.id, upload.extension)
      · rw [own, update_self]
        have sameId : other.id = upload.id := congrArg Prod.fst own
        have sameHash : attachmentHashHex upload.content = attachmentHashHex other.content := by
          rw [upload.hashed, other.hashed, sameId]
        rw [inv.distinct upload.content member other.content standing.2.2.1 sameHash]
      · rw [update_of_ne own]
        exact standing.2.2.2
    | _ =>
      have standing := inv.stages i
      rw [stage] at standing
      exact standing

theorem inv_unblob {mediaType : Bytes} (unnamed : Unnamed world id mediaType) :
    Inv { world with blobs := update world.blobs (id, attachmentBlobExtension mediaType) none } where
  distinct := inv.distinct
  blobs := by
    intro other extension content stored
    rcases update_cases stored with ⟨_, ⟨⟩⟩ | ⟨_, stored⟩
    exact inv.blobs other extension content stored
  whole := by
    intro other file found
    have apart : (other, file.extension) ≠ (id, attachmentBlobExtension mediaType) := by
      intro same
      obtain ⟨sameId, sameExtension⟩ := Prod.mk.inj same
      rw [sameId] at found
      exact unnamed.files file found sameExtension
    change (update world.blobs _ _ (other, file.extension)).isSome = true
    rw [update_of_ne apart]
    exact inv.whole other file found
  uploads := inv.uploads
  references := inv.references
  stages := by
    intro i
    apply standing_frame (inv.stages i)
    case clock => exact Nat.le_refl _
    case contents => exact fun _ member => member
    case held => exact fun _ _ => ⟨rfl, rfl⟩
    case blobs =>
      intro upload stage
      apply update_of_ne
      intro same
      obtain ⟨sameId, sameExtension⟩ := Prod.mk.inj same
      exact unnamed.uploads i upload stage sameId sameExtension

theorem inv_unlock {stage : Stage} (holds : (world.stages i).holds = some upload) (done : stage = .idle ∨ stage = .published) :
    Inv ((world.unlock upload).stage i stage) where
  distinct := inv.distinct
  blobs := inv.blobs
  whole := inv.whole
  uploads := inv.uploads
  references := inv.references
  stages := by
    intro j
    change Standing _ j (update world.stages i stage j)
    by_cases own : j = i
    · subst own
      rw [update_self]
      rcases done with rfl | rfl <;> trivial
    · rw [update_of_ne own]
      apply standing_frame (inv.stages j)
      case clock => exact Nat.le_refl _
      case contents => exact fun _ member => member
      case held =>
        intro other held
        have apart := locked_apart inv own (holds_lock (inv.stages i) holds).2 held
        exact ⟨rfl, update_of_ne apart _ _⟩
      case blobs => exact fun _ _ => rfl

theorem unlocked_free (holds : (world.stages i).holds = some upload)
    {stage : Stage} (done : stage = .idle ∨ stage = .published) {j : Nat} {other : Upload}
    (held : (((world.unlock upload).stage i stage).stages j).holds = some other) : other.id ≠ upload.id := by
  change (update world.stages i stage j).holds = some other at held
  by_cases own : j = i
  · subst own
    rw [update_self] at held
    rcases done with rfl | rfl <;> cases held
  · rw [update_of_ne own] at held
    exact shard_id (locked_apart inv own (holds_lock (inv.stages i) holds).2 held)

theorem inv_publish (good : Good world (.publish i upload)) : Inv (step world (.publish i upload)) := by
  simp only [step]
  cases stage : world.stages i with
  | idle =>
    cases lock : world.locks (attachmentShard upload.id) with
    | some j => exact inv
    | none =>
      have known : Inv { world with contents := upload.content :: world.contents } := by
        constructor
        case distinct =>
          intro a memberA b memberB same
          rcases List.mem_cons.mp memberA with rfl | oldA
          · rcases List.mem_cons.mp memberB with rfl | oldB
            · rfl
            · exact (good b oldB (same.symm.trans upload.hashed)).symm
          · rcases List.mem_cons.mp memberB with rfl | oldB
            · exact good a oldA (same.trans upload.hashed)
            · exact inv.distinct a oldA b oldB same
        case blobs =>
          intro id extension content stored
          obtain ⟨member, hash⟩ := inv.blobs id extension content stored
          exact ⟨List.mem_cons_of_mem _ member, hash⟩
        case whole => exact inv.whole
        case uploads =>
          intro id accepted found
          obtain ⟨⟨member, hash⟩, there⟩ := inv.uploads id accepted found
          exact ⟨⟨List.mem_cons_of_mem _ member, hash⟩, there⟩
        case references => exact inv.references
        case stages =>
          intro j
          exact standing_frame (inv.stages j) (Nat.le_refl _) (fun _ member => List.mem_cons_of_mem _ member)
            (fun _ _ => ⟨rfl, rfl⟩) (fun _ _ => rfl)
      cases file : world.files upload.id with
      | some existing =>
        have accepted := inv_accept known List.mem_cons_self (by rw [file]; rfl)
        dsimp only
        exact inv_stage accepted i trivial
      | none =>
        dsimp only
        constructor
        case distinct => exact known.distinct
        case blobs => exact known.blobs
        case whole => exact known.whole
        case uploads => exact known.uploads
        case references => exact known.references
        case stages =>
          intro j
          change Standing _ j (update world.stages i (.storing upload) j)
          by_cases own : j = i
          · subst own
            rw [update_self]
            exact ⟨file, update_self _ _ _, List.mem_cons_self⟩
          · rw [update_of_ne own]
            apply standing_frame (known.stages j)
            case clock => exact Nat.le_refl _
            case contents => exact fun _ member => member
            case held =>
              intro other holds
              refine ⟨rfl, update_of_ne ?_ _ _⟩
              intro same
              have held := (holds_lock (inv.stages j) holds).2
              rw [same, lock] at held
              cases held
            case blobs => exact fun _ _ => rfl
  | _ => exact inv

theorem inv_writeBlob (i : Nat) (written : Bool) : Inv (step world (.writeBlob i written)) := by
  simp only [step]
  cases stage : world.stages i with
  | storing upload =>
    have standing := inv.stages i
    rw [stage] at standing
    dsimp only
    split_ifs
    · have stored := inv_blob inv standing.2.2
      apply inv_stage stored i
      exact ⟨standing.1, standing.2.1, standing.2.2, update_self _ _ _⟩
    · exact inv_unlock inv (by rw [stage]; rfl) (.inl rfl)
  | _ => exact inv

theorem inv_writeMeta (i : Nat) (now : Stamp) (written : Bool) : Inv (step world (.writeMeta i now written)) := by
  simp only [step]
  cases stage : world.stages i with
  | stored upload =>
    have standing := inv.stages i
    rw [stage] at standing
    obtain ⟨absent, _, member, stored⟩ := standing
    have holds : (world.stages i).holds = some upload := by rw [stage]; rfl
    dsimp only
    split_ifs
    · have unlocked := inv_unlock inv holds (.inr rfl)
      have published : Inv { (world.unlock upload).stage i .published with
          files := update world.files upload.id (some ⟨publishedMeta upload, now, none, world.clock⟩) } := by
        apply inv_files unlocked
        case stored =>
          change (world.blobs (upload.id, upload.extension)).isSome = true
          rw [stored]
          rfl
        case free => exact fun _ _ held => unlocked_free inv holds (.inr rfl) held
        case marked =>
          intro refers
          obtain ⟨file, found, _⟩ := inv.references upload.id refers
          rw [absent] at found
          cases found
      apply inv_accept published member
      change (update world.files upload.id
        (some ⟨publishedMeta upload, now, none, world.clock⟩) upload.id).isSome = true
      rw [update_self]
      rfl
    · have unlocked := inv_unlock inv holds (.inl rfl)
      apply inv_unblob unlocked
      constructor
      case files =>
        intro file found
        change world.files upload.id = some file at found
        rw [absent] at found
        cases found
      case uploads =>
        intro j other stage_ same
        have held : (((world.unlock upload).stage i .idle).stages j).holds = some other := by rw [stage_]; rfl
        exact absurd same (unlocked_free inv holds (.inl rfl) held)
  | _ => exact inv

theorem inv_sweep (i : Nat) : Inv (step world (.sweep i)) := by
  simp only [step]
  cases world.stages i with
  | published => exact inv_stage inv i (Nat.le_refl world.clock)
  | _ => exact inv

theorem inv_stat (i : Nat) (id : String) : Inv (step world (.stat i id)) := by
  simp only [step]
  cases stage : world.stages i with
  | sweeping now =>
    have standing := inv.stages i
    rw [stage] at standing
    cases world.files id with
    | none => exact inv
    | some file => exact inv_stage inv i standing
  | _ => exact inv

theorem inv_read (i : Nat) (succeeded : Bool) : Inv (step world (.read i succeeded)) := by
  simp only [step]
  cases stage : world.stages i with
  | statted now id mtime =>
    have standing := inv.stages i
    rw [stage] at standing
    change now ≤ world.clock at standing
    dsimp only
    cases world.files id with
    | none =>
      apply inv_stage inv i
      exact standing
    | some file =>
      dsimp only
      split_ifs with spared
      · apply inv_stage inv i
        exact standing
      · rw [not_or, not_or] at spared
        apply inv_stage inv i
        refine ⟨standing, ?_⟩
        have old := spared.2.2
        have grace : 0 < graceSeconds := by decide
        omega
  | _ => exact inv

theorem inv_unfile {id : String} (unprotected : ∀ upload, world.uploads id = some upload →
      ¬(world.references id = true ∨ world.clock < upload.time + graceSeconds)) (unmarked : world.references id = false) :
    Inv { world with files := update world.files id none } where
  distinct := inv.distinct
  blobs := inv.blobs
  whole := by
    intro other file found
    rcases update_cases found with ⟨rfl, ⟨⟩⟩ | ⟨_, found⟩
    exact inv.whole other file found
  uploads := by
    intro other accepted found
    obtain ⟨content, there⟩ := inv.uploads other accepted found
    refine ⟨content, ?_⟩
    intro protected_
    by_cases own : other = id
    · subst own
      exact absurd protected_ (unprotected accepted found)
    · change (update world.files id none other).isSome = true
      rw [update_of_ne own]
      exact there protected_
  references := by
    intro other refers
    by_cases own : other = id
    · subst own
      change world.references other = true at refers
      rw [unmarked] at refers
      cases refers
    · change ∃ file, update world.files id none other = some file ∧ _
      rw [update_of_ne own]
      exact inv.references other refers
  stages := by
    intro i
    apply standing_frame (inv.stages i)
    case clock => exact Nat.le_refl _
    case contents => exact fun _ member => member
    case held =>
      intro upload holds
      refine ⟨?_, rfl⟩
      have absent := (holds_lock (inv.stages i) holds).1
      change update world.files id none upload.id = world.files upload.id
      by_cases own : upload.id = id
      · rw [own, update_self, ← own, absent]
      · exact update_of_ne own _ _
    case blobs => exact fun _ _ => rfl

theorem inv_forget (id : String) :
    Inv { world with
      uploads := update world.uploads id none
      references := update world.references id false } where
  distinct := inv.distinct
  blobs := inv.blobs
  whole := inv.whole
  uploads := by
    intro other accepted found
    rcases update_cases found with ⟨rfl, ⟨⟩⟩ | ⟨own, found⟩
    obtain ⟨content, there⟩ := inv.uploads other accepted found
    refine ⟨content, ?_⟩
    intro protected_
    apply there
    change update world.references id false other = true ∨ _ at protected_
    rw [update_of_ne own] at protected_
    exact protected_
  references := by
    intro other refers
    rcases update_cases refers with ⟨rfl, ⟨⟩⟩ | ⟨_, refers⟩
    exact inv.references other refers
  stages := inv.stages

theorem inv_unlinkMeta (good : Good world (.unlinkMeta i)) : Inv (step world (.unlinkMeta i)) := by
  simp only [step]
  cases stage : world.stages i with
  | expired now id mtime mediaType =>
    have standing := inv.stages i
    rw [stage] at standing
    have same := good now id mtime mediaType stage
    have unmarked : world.references id = false := by
      rw [← Bool.not_eq_true]
      intro refers
      obtain ⟨file, found, marked⟩ := inv.references id refers
      rw [(same file found).1] at marked
      cases marked
    have gone : Inv { world with files := update world.files id none } := by
      apply inv_unfile inv _ unmarked
      intro accepted found protected_
      obtain ⟨file, there⟩ := Option.isSome_iff_exists.mp ((inv.uploads id accepted found).2 protected_)
      have old := (same file there).2 accepted found
      rw [unmarked] at protected_
      have young := protected_.resolve_left Bool.false_ne_true
      have expired := standing.2
      have past := standing.1
      omega
    exact inv_stage gone i standing.1
  | deleting id mediaType =>
    have forgotten := inv_forget inv id
    have gone := @inv_unfile _ forgotten id
      (fun accepted found => by
        change update world.uploads id none id = some accepted at found
        rw [update_self] at found
        cases found)
      (update_self _ _ _)
    exact inv_stage gone i trivial
  | _ => exact inv

theorem inv_unlinkBlob (good : Good world (.unlinkBlob i)) : Inv (step world (.unlinkBlob i)) := by
  simp only [step]
  cases stage : world.stages i with
  | swept now id mediaType =>
    have standing := inv.stages i
    rw [stage] at standing
    exact inv_stage (inv_unblob inv (good.1 now id mediaType stage)) i standing
  | deleted id mediaType => exact inv_stage (inv_unblob inv (good.2 id mediaType stage)) i trivial
  | _ => exact inv

theorem inv_respond (i : Nat) : Inv (step world (.respond i)) := by
  simp only [step]
  cases world.stages i with
  | published => exact inv_stage inv i trivial
  | sweeping now => exact inv_stage inv i trivial
  | _ => exact inv

theorem inv_loadMark (i : Nat) (id : String) : Inv (step world (.loadMark i id)) := by
  simp only [step]
  cases world.stages i with
  | idle =>
    cases world.files id with
    | none => exact inv
    | some file =>
      dsimp only
      split_ifs
      · exact inv
      · exact inv_stage inv i trivial
  | _ => exact inv

theorem inv_loadDelete (i : Nat) (id : String) : Inv (step world (.loadDelete i id)) := by
  simp only [step]
  cases world.stages i with
  | idle =>
    cases world.files id with
    | none => exact inv
    | some file =>
      dsimp only
      split_ifs
      · exact inv
      · exact inv_stage inv i trivial
  | _ => exact inv

theorem inv_refer (marked : ∃ file, world.files id = some file ∧ file.referencedAt.isSome = true) :
    Inv { world with references := update world.references id true } where
  distinct := inv.distinct
  blobs := inv.blobs
  whole := inv.whole
  uploads := by
    intro other accepted found
    obtain ⟨content, there⟩ := inv.uploads other accepted found
    refine ⟨content, ?_⟩
    intro protected_
    by_cases own : other = id
    · subst own
      obtain ⟨file, found_, _⟩ := marked
      exact Option.isSome_iff_exists.mpr ⟨file, found_⟩
    · apply there
      change update world.references id true other = true ∨ _ at protected_
      rw [update_of_ne own] at protected_
      exact protected_
  references := by
    intro other refers
    by_cases own : other = id
    · subst own
      exact marked
    · change update world.references id true other = true at refers
      rw [update_of_ne own] at refers
      exact inv.references other refers
  stages := inv.stages

theorem inv_mark {now : Stamp} {written : Bool} (good : Good world (.mark i now written)) :
    Inv (step world (.mark i now written)) := by
  simp only [step]
  cases stage : world.stages i with
  | marking id loaded =>
    obtain ⟨file, found, same⟩ := good id loaded stage
    dsimp only
    cases lock : world.locks (attachmentShard id) with
    | some j => exact inv
    | none =>
      dsimp only
      split_ifs
      · have marked : Inv { world with
            files := update world.files id
              (some ⟨loaded, ((world.files id).map MetaFile.createdAt).getD now, some now, world.clock⟩) } := by
          apply inv_files inv
          case stored =>
            have stored := inv.whole id file found
            rw [same] at stored
            exact stored
          case free =>
            intro j upload holds own
            have held := (holds_lock (inv.stages j) holds).2
            rw [own, lock] at held
            cases held
          case marked => exact fun _ => rfl
        have refers := inv_refer marked ⟨_, update_self _ _ _, rfl⟩
        apply inv_stage refers i
        trivial
      · apply inv_stage inv i
        trivial
  | _ => exact inv

theorem inv_step (event : Event) (good : Good world event) : Inv (step world event) := by
  cases event with
  | tick seconds => exact inv_tick inv seconds
  | publish i upload => exact inv_publish inv good
  | writeBlob i written => exact inv_writeBlob inv i written
  | writeMeta i now written => exact inv_writeMeta inv i now written
  | sweep i => exact inv_sweep inv i
  | stat i id => exact inv_stat inv i id
  | read i succeeded => exact inv_read inv i succeeded
  | unlinkMeta i => exact inv_unlinkMeta inv good
  | unlinkBlob i => exact inv_unlinkBlob inv good
  | respond i => exact inv_respond inv i
  | loadMark i id => exact inv_loadMark inv i id
  | mark i now written => exact inv_mark inv good
  | loadDelete i id => exact inv_loadDelete inv i id

end Preserved

theorem inv_empty : Inv empty where
  distinct := nofun
  blobs := nofun
  whole := nofun
  uploads := nofun
  references := nofun
  stages := fun _ => trivial

end Steps

theorem attachments_kept (events : List Event) (good : Along step Good empty events) : Kept (events.foldl step empty) := by
  have preserved : ∀ world event, Inv world → Good world event → Inv (step world event) :=
    fun _ event inv good => inv_step inv event good
  exact kept_inv (along_invariant preserved inv_empty events good)

def note : Upload where
  content := utf8 "note"
  sniffed :=
    { mediaType := utf8 "text/plain"
      filename := utf8 "note.txt"
      imageCap := false
      videoCap := false
      audio := none
      documentCap := true }
  id := "edb465624291e4053c6c5ea4b7eb320dec773e10a57d26b95dcf0564f8e310f8"
  hashed := by decide +kernel

def uploaded (rest : List Event) : List Event :=
  [.publish 0 note, .writeBlob 0 true, .writeMeta 0 morning true, .sweep 0, .respond 0] ++ rest

theorem attachments_kept_note :
    Kept ((uploaded [.publish 1 note, .sweep 1, .stat 1 note.id, .read 1 true, .respond 1]).foldl step empty) := by
  apply attachments_kept
  refine ⟨nofun, trivial, trivial, trivial, trivial, ?_, trivial, trivial, trivial, trivial, trivial⟩
  intro content known _
  have contents : ((uploaded []).foldl step empty).contents = [note.content] := by decide
  change content ∈ ((uploaded []).foldl step empty).contents at known
  rw [contents] at known
  exact List.mem_singleton.mp known

def again : List Event :=
  uploaded [.tick 86400, .publish 1 note, .sweep 1, .stat 1 note.id, .read 1 true, .unlinkMeta 1, .unlinkBlob 1, .respond 1]

theorem attachment_swept : ¬ Kept (again.foldl step empty) := by
  intro kept
  have accepted : (again.foldl step empty).uploads note.id = some ⟨note.content, 86400⟩ := by decide
  have young : (again.foldl step empty).clock < 86400 + graceSeconds := by decide
  have there := kept.accepted note.id _ accepted (.inr young)
  have gone : get (again.foldl step empty) note.id = none := by decide
  rw [gone] at there
  cases there

end SamosaChat.Attachments
