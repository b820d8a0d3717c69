import SamosaChat.Conversation.Documents
import SamosaChat.Lib.Runs

set_option autoImplicit false

namespace SamosaChat.Conversation.DocumentTurns

open Utf8 Text Runs Function

structure Piece where
  source : Option String
  text : Bytes
deriving DecidableEq

def weight (pieces : List Piece) : Nat :=
  (pieces.map fun piece => piece.text.length).sum

-- What attachment_load_meta says of an attachment. Images and silent videos stay with the turn.
structure Attachment where
  id : String
  filename : Bytes
  durable : Option SourceKind
  documentCap : Bool

-- What attachment_augment makes of one.
structure Augmented where
  text : Bytes
  tokens : Nat
  retrieval : Bool

inductive Backend
  | qwen
  | maple
  | bonsai
  | ornith
  | other
deriving DecidableEq

structure Plan where
  backend : Backend
  sessionExists : Bool
  inspectVisual : Bool
  readerFingerprint : Bytes
  now : Bytes

inductive Reuse
  | fresh
  | saved
  | stable
deriving DecidableEq

inductive Kind
  | chat
  | compaction
deriving DecidableEq

inductive Stage
  | loaded
  | extracted
  | newMerged
  | merged
  | saved
  | built
deriving DecidableEq

structure Turn where
  kind : Kind
  stage : Stage
  plan : Plan
  attached : List String
  boundDocuments : ConversationDocuments
  newDocuments : ConversationDocuments
  reuse : Reuse
  evidence : List Piece
  pinned : List Piece
  -- The attachments of this request that were not detached since it began, and
  -- the documents that were detached when it began and not attached since.
  wanted : String → Bool
  since : String → Bool

structure World where
  manifest : ConversationDocuments
  context : Option (List Piece)
  turns : Nat → Option Turn
  deletes : Nat → Option String
  removed : String → Bool
  acked : String → Bool
  added : String → Bool

def empty : World where
  manifest := []
  context := none
  turns := fun _ => none
  deletes := fun _ => none
  removed := fun _ => false
  acked := fun _ => false
  added := fun _ => false

inductive Event
  | begin_ (i : Nat) (kind : Kind) (attachments : List Attachment) (plan : Plan) (readable : Bool)
  | extract (i : Nat) (texts : String → Option Augmented) (readable : Bool)
  | mergeNew (i : Nat) (readable written : Bool)
  | mergeBound (i : Nat) (readable written : Bool)
  | save (i : Nat) (written : Bool)
  | recover (i : Nat) (readable : Bool)
  | leave (i : Nat)
  | remove (k : Nat) (id : String) (readable written : Bool)
  | unlink (k : Nat) (succeeded : Bool)

def newDocument (plan : Plan) (attachment : Attachment) (sourceKind : SourceKind) : ConversationDocument where
  attachmentId := attachment.id
  filename := attachment.filename
  sourceKind := sourceKind
  extractorFingerprint := if attachment.documentCap then plan.readerFingerprint else []
  mode := .full
  addedAt := plan.now
  tokens := 0

def collect (plan : Plan) (bound : ConversationDocuments) (attachments : List Attachment) : ConversationDocuments :=
  attachments.foldl (fun docs attachment =>
    match attachment.durable with
    | some sourceKind =>
      if attachment.id ∈ ids bound ∨ attachment.id ∈ ids docs then docs
      else docs ++ [newDocument plan attachment sourceKind]
    | none => docs) []

-- conversation_documents_full_context_current
def fullContextCurrent (plan : Plan) (docs : ConversationDocuments) : Bool :=
  docs ≠ [] && docs.all fun doc =>
    doc.mode = .full && doc.sourceKind = .document && doc.extractorFingerprint ≠ [] &&
      doc.extractorFingerprint = plan.readerFingerprint

def chooseReuse (plan : Plan) (attachments : List Attachment) (bound : ConversationDocuments)
    (context : Option (List Piece)) : Reuse :=
  if attachments = [] ∧ fullContextCurrent plan bound = true ∧ context.isSome = true ∧ plan.inspectVisual = false then
    if plan.backend = .maple ∨ plan.backend = .qwen ∧ plan.sessionExists = true then .saved
    else if plan.backend = .bonsai ∨ plan.backend = .ornith then .stable
    else .fresh
  else .fresh

def readOne (texts : String → Option Augmented) (doc : ConversationDocument) : ConversationDocument :=
  match texts doc.attachmentId with
  | some augmented =>
    { doc with tokens := augmented.tokens, mode := if augmented.retrieval then .retrieval else .full }
  | none => doc

def readBound (plan : Plan) (texts : String → Option Augmented) (doc : ConversationDocument) : ConversationDocument :=
  { readOne texts doc with
    extractorFingerprint :=
      if doc.sourceKind = .document then plan.readerFingerprint else doc.extractorFingerprint }

def augment (texts : String → Option Augmented) (names : List String) : Option (List Piece) :=
  names.mapM fun id => (texts id).map fun augmented => ⟨some id, augmented.text⟩

def continuityNote (bound : ConversationDocuments) : List Piece :=
  [⟨none, utf8 "\n\n--- Attached document context already loaded in this conversation ---\n"⟩,
    ⟨none, utf8 "The preceding saved conversation turn contains the exact passages from the attached document. "⟩,
    ⟨none, utf8 "Use that document context for this follow-up; do not claim the document is missing.\n"⟩] ++
    (bound.map fun doc => ⟨some doc.attachmentId, utf8 "[Attached document: " ++ doc.filename ++ utf8 "]\n"⟩) ++
    [⟨none, utf8 "--- end attached document continuity note ---"⟩]

-- DEEP_FILE_MAX_EVIDENCE_CHARS, and the budget of a compaction
def maxEvidence : Kind → Nat
  | .chat => 64000
  | .compaction => 240000

def maxContext : Nat := 262144

structure Extracted where
  evidence : List Piece
  boundDocuments : ConversationDocuments
  newDocuments : ConversationDocuments

def extractChat (turn : Turn) (texts : String → Option Augmented) (context : Option (List Piece)) : Option Extracted := do
  let supplied ← augment texts turn.attached
  let fresh := turn.newDocuments.map (readOne texts)
  match turn.reuse with
  | .saved => some ⟨supplied ++ continuityNote turn.boundDocuments, turn.boundDocuments, fresh⟩
  | .stable => do
    let saved ← context
    some ⟨supplied ++ saved, turn.boundDocuments, fresh⟩
  | .fresh => do
    let others ← augment texts ((ids turn.boundDocuments).filter fun id => id ∉ turn.attached)
    some ⟨supplied ++ others, turn.boundDocuments.map (readBound turn.plan texts), fresh⟩

def extractCompaction (turn : Turn) (texts : String → Option Augmented) (context : Option (List Piece)) :
    Option Extracted :=
  match context with
  | some saved => some ⟨saved, turn.boundDocuments, []⟩
  | none => do
    let evidence ← augment texts (ids turn.boundDocuments)
    some ⟨evidence, turn.boundDocuments.map (readOne texts), []⟩

def extract (turn : Turn) (texts : String → Option Augmented) (context : Option (List Piece)) : Option Extracted :=
  match turn.kind with
  | .chat => extractChat turn texts context
  | .compaction => extractCompaction turn texts context

def saves (turn : Turn) : Bool :=
  turn.kind = .chat && 0 < weight turn.evidence && turn.reuse = .fresh

def World.setTurn (world : World) (i : Nat) (turn : Option Turn) : World :=
  { world with turns := Function.update world.turns i turn }

def forget (names : String → Bool) (turn : Turn) : Turn :=
  { turn with since := fun id => turn.since id && !names id }

def World.merge (world : World) (turn : Turn) (docs all : ConversationDocuments) : World :=
  let attaches := fun id => decide (id ∈ ids docs) && turn.wanted id
  { world with
    manifest := all
    added := fun id => decide (id ∈ ids docs) || world.added id
    removed := fun id => world.removed id && !attaches id
    acked := fun id => world.acked id && !attaches id
    turns := fun j => (world.turns j).map (forget attaches) }

def mergeDocuments (world : World) (i : Nat) (turn : Turn) (docs : ConversationDocuments) (readable written : Bool)
    (next : Stage) : World :=
  if docs = [] then world.setTurn i (some { turn with stage := next })
  else
    match conversationDocumentsMerge world.manifest docs with
    | some all =>
      if readable && written then
        let attaches := fun id => decide (id ∈ ids docs) && turn.wanted id
        (world.merge turn docs all).setTurn i (some (forget attaches { turn with stage := next }))
      else world.setTurn i none
    | none => world.setTurn i none

def unwant (id : String) (turn : Turn) : Turn :=
  { turn with wanted := Function.update turn.wanted id false }

def newTurn (world : World) (kind : Kind) (attachments : List Attachment) (plan : Plan) : Turn :=
  let attachments := if kind = .chat then attachments else []
  { kind := kind
    stage := .loaded
    plan := plan
    attached := attachments.map Attachment.id
    boundDocuments := world.manifest
    newDocuments := collect plan world.manifest attachments
    reuse := chooseReuse plan attachments world.manifest world.context
    evidence := []
    pinned := []
    wanted := fun id => id ∈ attachments.map Attachment.id
    since := fun id => world.acked id && decide (id ∉ attachments.map Attachment.id) }

def step (world : World) : Event → World
  | .begin_ i kind attachments plan readable =>
    match world.turns i, readable with
    | none, true =>
      let turn := newTurn world kind attachments plan
      if maxConversationDocuments < turn.newDocuments.length then world
      else if kind = .compaction ∧ world.manifest = [] then world
      else world.setTurn i (some turn)
    | _, _ => world
  | .extract i texts readable =>
    match world.turns i with
    | some turn =>
      if turn.stage = .loaded then
        match extract turn texts (if readable then world.context else none) with
        | some extracted =>
          if maxEvidence turn.kind < weight extracted.evidence then world.setTurn i none
          else
            world.setTurn i (some
              { turn with
                stage := .extracted
                evidence := extracted.evidence
                boundDocuments := extracted.boundDocuments
                newDocuments := extracted.newDocuments })
        | none => world.setTurn i none
      else world
    | none => world
  | .mergeNew i readable written =>
    match world.turns i with
    | some turn =>
      if turn.stage = .extracted then mergeDocuments world i turn turn.newDocuments readable written .newMerged
      else world
    | none => world
  | .mergeBound i readable written =>
    match world.turns i with
    | some turn =>
      if turn.stage = .newMerged then mergeDocuments world i turn turn.boundDocuments readable written .merged
      else world
    | none => world
  | .save i written =>
    match world.turns i with
    | some turn =>
      if turn.stage = .merged then
        if saves turn then
          if written && decide (weight turn.evidence ≤ maxContext) then
            { world with context := some turn.evidence }.setTurn i (some { turn with stage := .saved })
          else world.setTurn i none
        else world.setTurn i (some { turn with stage := .saved })
      else world
    | none => world
  | .recover i readable =>
    match world.turns i with
    | some turn =>
      if turn.stage = .saved then
        if turn.reuse = .saved then
          match world.context, readable with
          | some pieces, true => world.setTurn i (some { turn with stage := .built, pinned := pieces })
          | _, _ => world.setTurn i none
        else world.setTurn i (some { turn with stage := .built, pinned := turn.evidence })
      else world
    | none => world
  | .leave i => world.setTurn i none
  | .remove k id readable written =>
    match world.deletes k, conversationDocumentsRemove id world.manifest with
    | none, some rest =>
      if readable && written then
        { world with
          manifest := rest
          removed := Function.update world.removed id true
          added := Function.update world.added id false
          turns := fun j => (world.turns j).map (unwant id)
          deletes := Function.update world.deletes k (some id) }
      else world
    | _, _ => world
  | .unlink k succeeded =>
    match world.deletes k with
    | some id =>
      { world with
        context := if succeeded then none else world.context
        acked := Function.update world.acked id (world.removed id)
        deletes := Function.update world.deletes k none }
    | none => world

def Lacks (pieces : List Piece) (id : String) : Prop :=
  ∀ piece ∈ pieces, piece.source ≠ some id

structure Without (turn : Turn) (id : String) : Prop where
  bound : id ∉ ids turn.boundDocuments
  fresh : id ∉ ids turn.newDocuments
  evidence : Lacks turn.evidence id
  pinned : Lacks turn.pinned id

structure Kept (world : World) : Prop where
  -- A document whose detachment was acknowledged, and which was not attached again.
  detached : ∀ id, world.acked id = true →
    id ∉ ids world.manifest ∧ ∀ pieces, world.context = some pieces → Lacks pieces id
  turns : ∀ i turn id, world.turns i = some turn → turn.since id = true → Without turn id
  manifest : Manifest world.manifest
  added : ∀ id, world.added id = true → id ∈ ids world.manifest

def Unrevived (world : World) (turn : Turn) (docs : ConversationDocuments) : Prop :=
  ∀ id ∈ ids docs, world.removed id = true → turn.wanted id = true

def Good (world : World) : Event → Prop
  | .mergeNew i _ _ => ∀ turn, world.turns i = some turn → Unrevived world turn turn.newDocuments
  | .mergeBound i _ _ => ∀ turn, world.turns i = some turn → Unrevived world turn turn.boundDocuments
  -- No text of a document whose detachment was acknowledged is saved.
  | .save i _ => ∀ turn, world.turns i = some turn → saves turn = true →
      ∀ id, world.acked id = true → Lacks turn.evidence id
  -- The saved text goes, or it has nothing of the document.
  | .unlink k succeeded => ∀ id, world.deletes k = some id → succeeded = false →
      ∀ pieces, world.context = some pieces → Lacks pieces id
  | _ => True

structure Sound (acked : String → Bool) (turn : Turn) (id : String) : Prop extends Without turn id where
  acked : acked id = true
  attached : id ∉ turn.attached

structure Inv (world : World) : Prop where
  manifest : Manifest world.manifest
  removed : ∀ id, world.removed id = true → id ∉ ids world.manifest
  acked : ∀ id, world.acked id = true →
    world.removed id = true ∧ ∀ pieces, world.context = some pieces → Lacks pieces id
  added : ∀ id, world.added id = true → id ∈ ids world.manifest
  turns : ∀ i turn id, world.turns i = some turn → turn.since id = true → Sound world.acked turn id

section Steps

variable {world : World}

theorem kept_inv (inv : Inv world) : Kept world where
  detached := fun id acked => ⟨inv.removed id (inv.acked id acked).1, (inv.acked id acked).2⟩
  turns := fun i turn id found since => (inv.turns i turn id found since).toWithout
  manifest := inv.manifest
  added := inv.added

theorem inv_set (inv : Inv world) (i : Nat) {next : Option Turn}
    (sound : ∀ turn id, next = some turn → turn.since id = true → Sound world.acked turn id) : Inv (world.setTurn i next) where
  manifest := inv.manifest
  removed := inv.removed
  acked := inv.acked
  added := inv.added
  turns := by
    intro j turn id found
    rcases update_cases found with ⟨rfl, found'⟩ | ⟨_, found⟩
    · exact sound turn id found'
    · exact inv.turns j turn id found

theorem inv_gone (inv : Inv world) (i : Nat) : Inv (world.setTurn i none) := by
  apply inv_set inv
  intro turn id same
  cases same

variable {i : Nat} {id : String} {turn : Turn}

theorem lacks_append {pieces more : List Piece} (first : Lacks pieces id) (second : Lacks more id) : Lacks (pieces ++ more) id := by
  intro piece inside
  rcases List.mem_append.mp inside with before | after
  · exact first piece before
  · exact second piece after

theorem augment_sources {texts : String → Option Augmented} {names : List String} {pieces : List Piece}
    (augmented : augment texts names = some pieces) (absent : id ∉ names) : Lacks pieces id := by
  induction names generalizing pieces with
  | nil =>
    cases augmented
    exact nofun
  | cons name rest ih =>
    rw [List.mem_cons, not_or] at absent
    rw [augment, List.mapM_cons, Option.bind_eq_bind, Option.bind_eq_some_iff] at augmented
    obtain ⟨first, read, augmented⟩ := augmented
    rw [Option.bind_eq_bind, Option.bind_eq_some_iff] at augmented
    obtain ⟨others, later, joined⟩ := augmented
    obtain ⟨one, _, rfl⟩ := Option.map_eq_some_iff.mp read
    cases joined
    intro piece inside
    rcases List.mem_cons.mp inside with rfl | after
    · intro same
      exact absent.1 (Option.some.inj same).symm
    · exact ih later absent.2 piece after

theorem note_sources {bound : ConversationDocuments} (absent : id ∉ ids bound) : Lacks (continuityNote bound) id := by
  rw [continuityNote]
  apply lacks_append
  · apply lacks_append
    · intro piece inside
      simp only [List.mem_cons, List.not_mem_nil, or_false] at inside
      rcases inside with first | second | third
      · exact first ▸ fun same => by cases same
      · exact second ▸ fun same => by cases same
      · exact third ▸ fun same => by cases same
    · intro piece inside
      obtain ⟨doc, member, rfl⟩ := List.mem_map.mp inside
      intro same
      exact absent (Option.some.inj same ▸ List.mem_map_of_mem member)
  · intro piece inside
    cases List.mem_singleton.mp inside
    intro same
    cases same

theorem read_ids (texts : String → Option Augmented) (docs : ConversationDocuments) :
    ids (docs.map (readOne texts)) = ids docs := by
  rw [ids, List.map_map]
  apply List.map_congr_left
  intro doc _
  rw [Function.comp_apply, readOne]
  cases texts doc.attachmentId <;> rfl

theorem bound_ids (plan : Plan) (texts : String → Option Augmented) (docs : ConversationDocuments) :
    ids (docs.map (readBound plan texts)) = ids docs := by
  rw [← read_ids texts docs, ids, ids, List.map_map, List.map_map]
  rfl

theorem collect_ids (plan : Plan) (bound : ConversationDocuments) (attachments : List Attachment)
    (inside : id ∈ ids (collect plan bound attachments)) : id ∈ attachments.map Attachment.id := by
  have collected : ∀ docs, id ∈ ids (attachments.foldl (fun docs attachment =>
      match attachment.durable with
      | some sourceKind =>
        if attachment.id ∈ ids bound ∨ attachment.id ∈ ids docs then docs
        else docs ++ [newDocument plan attachment sourceKind]
      | none => docs) docs) → id ∈ ids docs ∨ id ∈ attachments.map Attachment.id := by
    clear inside
    induction attachments with
    | nil => exact fun _ inside => .inl inside
    | cons attachment rest ih =>
      intro docs inside
      rw [List.foldl_cons] at inside
      rw [List.map_cons, List.mem_cons]
      rcases ih _ inside with before | after
      · cases durable : attachment.durable with
        | none =>
          rw [durable] at before
          exact .inl before
        | some sourceKind =>
          rw [durable] at before
          dsimp only at before
          split_ifs at before
          · exact .inl before
          · rw [ids, List.map_append, List.mem_append] at before
            rcases before with old | new
            · exact .inl old
            · exact .inr (.inl (List.mem_singleton.mp new))
      · exact .inr (.inr after)
  rcases collected [] inside with none_ | attached
  · cases none_
  · exact attached

structure Read (turn : Turn) (extracted : Extracted) (id : String) : Prop where
  bound : id ∉ ids extracted.boundDocuments
  fresh : id ∉ ids extracted.newDocuments
  evidence : Lacks extracted.evidence id

theorem extract_without {texts : String → Option Augmented} {context : Option (List Piece)}
    {extracted : Extracted} (read : extract turn texts context = some extracted)
    (without : Without turn id) (attached : id ∉ turn.attached)
    (saved : ∀ pieces, context = some pieces → Lacks pieces id) : Read turn extracted id := by
  cases kind : turn.kind with
  | chat =>
    rw [extract, kind] at read
    change extractChat turn texts context = some extracted at read
    rw [extractChat, Option.bind_eq_bind, Option.bind_eq_some_iff] at read
    obtain ⟨supplied, first, read⟩ := read
    have own := augment_sources first attached
    have fresh : id ∉ ids (turn.newDocuments.map (readOne texts)) := by
      rw [read_ids]
      exact without.fresh
    cases reuse : turn.reuse with
    | saved =>
      rw [reuse] at read
      cases read
      exact ⟨without.bound, fresh, lacks_append own (note_sources without.bound)⟩
    | stable =>
      rw [reuse] at read
      dsimp only at read
      rw [Option.bind_eq_some_iff] at read
      obtain ⟨pieces, there, read⟩ := read
      cases read
      exact ⟨without.bound, fresh, lacks_append own (saved pieces there)⟩
    | fresh =>
      rw [reuse] at read
      dsimp only at read
      rw [Option.bind_eq_some_iff] at read
      obtain ⟨others, later, read⟩ := read
      cases read
      constructor
      case bound =>
        rw [bound_ids]
        exact without.bound
      case fresh => exact fresh
      case evidence =>
        apply lacks_append own
        apply augment_sources later
        exact fun inside => without.bound (List.mem_filter.mp inside).1
  | compaction =>
    rw [extract, kind] at read
    change extractCompaction turn texts context = some extracted at read
    cases context with
    | some pieces =>
      rw [extractCompaction] at read
      cases read
      exact ⟨without.bound, nofun, saved pieces rfl⟩
    | none =>
      rw [extractCompaction, Option.bind_eq_bind, Option.bind_eq_some_iff] at read
      obtain ⟨evidence, later, read⟩ := read
      cases read
      constructor
      case bound =>
        rw [read_ids]
        exact without.bound
      case fresh => exact nofun
      case evidence => exact augment_sources later without.bound

theorem inv_begin (inv : Inv world) (i : Nat) (kind : Kind) (attachments : List Attachment) (plan : Plan)
    (readable : Bool) : Inv (step world (.begin_ i kind attachments plan readable)) := by
  simp only [step]
  cases world.turns i with
  | some turn => exact inv
  | none =>
    cases readable with
    | false => exact inv
    | true =>
      dsimp only
      split_ifs
      · exact inv
      · exact inv
      · apply inv_set inv
        intro turn id same since
        cases same
        rw [newTurn, Bool.and_eq_true, decide_eq_true_eq] at since
        obtain ⟨acked, attached⟩ := since
        have absent := inv.removed id (inv.acked id acked).1
        constructor
        case toWithout =>
          constructor
          case bound => exact absent
          case fresh => exact fun inside => attached (collect_ids _ _ _ inside)
          case evidence => exact nofun
          case pinned => exact nofun
        case acked => exact acked
        case attached => exact attached

theorem inv_extract (inv : Inv world) (i : Nat) (texts : String → Option Augmented) (readable : Bool) :
    Inv (step world (.extract i texts readable)) := by
  simp only [step]
  cases found : world.turns i with
  | none => exact inv
  | some turn =>
    dsimp only
    by_cases loaded : turn.stage = .loaded
    · rw [if_pos loaded]
      cases read : extract turn texts (if readable then world.context else none) with
      | none => exact inv_gone inv i
      | some extracted =>
        dsimp only
        split_ifs
        · exact inv_gone inv i
        · apply inv_set inv
          intro next id same since
          cases same
          have sound := inv.turns i turn id found since
          have saved : ∀ pieces, (if readable then world.context else none) = some pieces → Lacks pieces id := by
            intro pieces there
            split_ifs at there
            exact (inv.acked id sound.acked).2 pieces there
          have without := extract_without read sound.toWithout sound.attached saved
          exact ⟨⟨without.bound, without.fresh, without.evidence, sound.pinned⟩, sound.acked, sound.attached⟩
    · rw [if_neg loaded]
      exact inv

theorem inv_stage (inv : Inv world) (found : world.turns i = some turn) (stage : Stage) :
    Inv (world.setTurn i (some { turn with stage := stage })) := by
  apply inv_set inv
  intro next id same since
  cases same
  have sound := inv.turns i turn id found since
  exact ⟨⟨sound.bound, sound.fresh, sound.evidence, sound.pinned⟩, sound.acked, sound.attached⟩

theorem inv_merge (inv : Inv world) {docs all : ConversationDocuments}
    (unrevived : Unrevived world turn docs) (merged : conversationDocumentsMerge world.manifest docs = some all) :
    Inv (world.merge turn docs all) where
  manifest := (documents_merge merged).manifest inv.manifest
  removed := by
    intro id removed inside
    simp only [World.merge, Bool.and_eq_true, Bool.not_eq_true', Bool.and_eq_false_iff, decide_eq_false_iff_not]
      at removed
    rcases ((documents_merge merged).both id).mp inside with old | new
    · exact inv.removed id removed.1 old
    · have wanted := unrevived id new removed.1
      rcases removed.2 with outside | unwanted
      · exact outside new
      · rw [wanted] at unwanted
        cases unwanted
  acked := by
    intro id acked
    simp only [World.merge, Bool.and_eq_true] at acked
    obtain ⟨removed, lacks⟩ := inv.acked id acked.1
    refine ⟨?_, lacks⟩
    simp only [World.merge, Bool.and_eq_true]
    exact ⟨removed, acked.2⟩
  added := by
    intro id added
    simp only [World.merge, Bool.or_eq_true, decide_eq_true_eq] at added
    rw [show (world.merge turn docs all).manifest = all from rfl, (documents_merge merged).both id]
    rcases added with new | old
    · exact .inr new
    · exact .inl (inv.added id old)
  turns := by
    intro j other id found since
    change (world.turns j).map (forget fun id => decide (id ∈ ids docs) && turn.wanted id) = some other at found
    obtain ⟨before, there, rfl⟩ := Option.map_eq_some_iff.mp found
    simp only [forget, Bool.and_eq_true] at since
    have sound := inv.turns j before id there since.1
    refine ⟨⟨sound.bound, sound.fresh, sound.evidence, sound.pinned⟩, ?_, sound.attached⟩
    simp only [World.merge, Bool.and_eq_true]
    exact ⟨sound.acked, since.2⟩

theorem inv_mergeDocuments (inv : Inv world) (found : world.turns i = some turn)
    {docs : ConversationDocuments} (unrevived : Unrevived world turn docs) (readable written : Bool) (next : Stage) :
    Inv (mergeDocuments world i turn docs readable written next) := by
  rw [mergeDocuments]
  by_cases none_ : docs = []
  · rw [if_pos none_]
    exact inv_stage inv found next
  · rw [if_neg none_]
    cases merged : conversationDocumentsMerge world.manifest docs with
    | none => exact inv_gone inv i
    | some all =>
      dsimp only
      split_ifs
      · have together := inv_merge inv unrevived merged
        have there : (world.merge turn docs all).turns i =
            some (forget (fun id => decide (id ∈ ids docs) && turn.wanted id) turn) := by
          change (world.turns i).map _ = _
          rw [found]
          rfl
        exact inv_stage together there next
      · exact inv_gone inv i

theorem inv_save (inv : Inv world) {written : Bool} (good : Good world (.save i written)) : Inv (step world (.save i written)) := by
  simp only [step]
  cases found : world.turns i with
  | none => exact inv
  | some turn =>
    dsimp only
    split_ifs with stage saving ok
    · have saved : Inv { world with context := some turn.evidence } := by
        constructor
        case manifest => exact inv.manifest
        case removed => exact inv.removed
        case acked =>
          intro id acked
          refine ⟨(inv.acked id acked).1, ?_⟩
          intro pieces there
          cases there
          exact good turn found saving id acked
        case added => exact inv.added
        case turns => exact inv.turns
      exact inv_stage saved found _
    · exact inv_gone inv i
    · exact inv_stage inv found _
    · exact inv

theorem inv_recover (inv : Inv world) (i : Nat) (readable : Bool) : Inv (step world (.recover i readable)) := by
  simp only [step]
  cases found : world.turns i with
  | none => exact inv
  | some turn =>
    dsimp only
    split_ifs
    · cases context : world.context with
      | none => exact inv_gone inv i
      | some pieces =>
        cases readable with
        | false => exact inv_gone inv i
        | true =>
          apply inv_set inv
          intro next id same since
          cases same
          have sound := inv.turns i turn id found since
          have lacks := (inv.acked id sound.acked).2 pieces context
          exact ⟨⟨sound.bound, sound.fresh, sound.evidence, lacks⟩, sound.acked, sound.attached⟩
    · apply inv_set inv
      intro next id same since
      cases same
      have sound := inv.turns i turn id found since
      exact ⟨⟨sound.bound, sound.fresh, sound.evidence, sound.evidence⟩, sound.acked, sound.attached⟩
    · exact inv

theorem inv_remove (inv : Inv world) (k : Nat) (id : String) (readable written : Bool) :
    Inv (step world (.remove k id readable written)) := by
  simp only [step]
  cases world.deletes k with
  | some other => exact inv
  | none =>
    cases found : conversationDocumentsRemove id world.manifest with
    | none => exact inv
    | some rest =>
      dsimp only
      split_ifs
      · obtain ⟨manifest, others⟩ := documents_remove found inv.manifest
        constructor
        case manifest => exact manifest
        case removed =>
          intro other removed inside
          obtain ⟨old, different⟩ := (others other).mp inside
          change update world.removed id true other = true at removed
          rw [update_of_ne different] at removed
          exact inv.removed other removed old
        case acked =>
          intro other acked
          refine ⟨?_, (inv.acked other acked).2⟩
          change update world.removed id true other = true
          by_cases own : other = id
          · subst own
            rw [update_self]
          · rw [update_of_ne own]
            exact (inv.acked other acked).1
        case added =>
          intro other added
          rcases update_cases added with ⟨rfl, ⟨⟩⟩ | ⟨own, added⟩
          exact (others other).mpr ⟨inv.added other added, own⟩
        case turns =>
          intro j turn other there since
          obtain ⟨before, there_, rfl⟩ := Option.map_eq_some_iff.mp there
          have sound := inv.turns j before other there_ since
          exact ⟨⟨sound.bound, sound.fresh, sound.evidence, sound.pinned⟩, sound.acked, sound.attached⟩
      · exact inv

theorem inv_unlink (inv : Inv world) {k : Nat} {succeeded : Bool} (good : Good world (.unlink k succeeded)) :
    Inv (step world (.unlink k succeeded)) := by
  simp only [step]
  cases deleting : world.deletes k with
  | none => exact inv
  | some id =>
    have still : ∀ other, world.acked other = true → update world.acked id (world.removed id) other = true := by
      intro other acked
      by_cases own : other = id
      · subst own
        rw [update_self]
        exact (inv.acked other acked).1
      · rw [update_of_ne own]
        exact acked
    constructor
    case manifest => exact inv.manifest
    case removed => exact inv.removed
    case acked =>
      intro other acked
      rcases update_cases acked with ⟨rfl, acked'⟩ | ⟨_, acked⟩
      · refine ⟨acked', ?_⟩
        intro pieces there
        change (if succeeded then none else world.context) = some pieces at there
        split_ifs at there with gone
        exact good other deleting (Bool.not_eq_true _ ▸ gone) pieces there
      · refine ⟨(inv.acked other acked).1, ?_⟩
        intro pieces there
        change (if succeeded then none else world.context) = some pieces at there
        split_ifs at there
        exact (inv.acked other acked).2 pieces there
    case added => exact inv.added
    case turns =>
      intro j turn other there since
      have sound := inv.turns j turn other there since
      exact ⟨sound.toWithout, still other sound.acked, sound.attached⟩

theorem inv_step (inv : Inv world) (event : Event) (good : Good world event) : Inv (step world event) := by
  cases event with
  | begin_ i kind attachments plan readable => exact inv_begin inv i kind attachments plan readable
  | extract i texts readable => exact inv_extract inv i texts readable
  | mergeNew i readable written =>
    simp only [step]
    cases found : world.turns i with
    | none => exact inv
    | some turn =>
      dsimp only
      split_ifs
      · exact inv_mergeDocuments inv found (good turn found) readable written _
      · exact inv
  | mergeBound i readable written =>
    simp only [step]
    cases found : world.turns i with
    | none => exact inv
    | some turn =>
      dsimp only
      split_ifs
      · exact inv_mergeDocuments inv found (good turn found) readable written _
      · exact inv
  | save i written => exact inv_save inv good
  | recover i readable => exact inv_recover inv i readable
  | leave i => exact inv_gone inv i
  | remove k id readable written => exact inv_remove inv k id readable written
  | unlink k succeeded => exact inv_unlink inv good

theorem inv_empty : Inv empty where
  manifest := ⟨.nil, Nat.zero_le _⟩
  removed := fun _ removed => Bool.noConfusion removed
  acked := fun _ acked => Bool.noConfusion acked
  added := fun _ added => Bool.noConfusion added
  turns := by
    intro i turn id found
    cases found

end Steps

theorem documents_detached (events : List Event) (good : Along step Good empty events) : Kept (events.foldl step empty) := by
  have preserved : ∀ world event, Inv world → Good world event → Inv (step world event) :=
    fun _ event inv good => inv_step inv event good
  exact kept_inv (along_invariant preserved inv_empty events good)

def paper : Attachment where
  id := "edb465624291e4053c6c5ea4b7eb320dec773e10a57d26b95dcf0564f8e310f8"
  filename := utf8 "paper.txt"
  durable := some .document
  documentCap := true

def plan : Plan where
  backend := .other
  sessionExists := false
  inspectVisual := false
  readerFingerprint := utf8 "reader-1"
  now := utf8 "2026-01-01T08:00:00Z"

def texts : String → Option Augmented :=
  fun _ => some ⟨utf8 "The text of the paper.", 6, false⟩

def chat (i : Nat) : List Event :=
  [.extract i texts true, .mergeNew i true true, .mergeBound i true true, .save i true, .recover i true]

def attached (rest : List Event) : List Event :=
  [.begin_ 0 .chat [paper] plan true] ++ chat 0 ++ rest

theorem documents_detached_paper : Kept ((attached [.remove 1 paper.id true true, .unlink 1 true]).foldl step empty) := by
  apply documents_detached
  refine ⟨trivial, trivial, ?_, ?_, ?_, trivial, trivial, ?_, trivial⟩
  · intro _ _ _ _ removed
    exact Bool.noConfusion removed
  · intro _ _ _ _ removed
    exact Bool.noConfusion removed
  · intro _ _ _ _ acked
    exact Bool.noConfusion acked
  · intro _ _ failed
    cases failed

def revived : List Event :=
  attached ([.begin_ 1 .chat [] plan true, .remove 2 paper.id true true, .unlink 2 true] ++ chat 1)

theorem document_revived : ¬ Kept (revived.foldl step empty) := by
  intro kept
  have acked : (revived.foldl step empty).acked paper.id = true := by decide +kernel
  have bound : paper.id ∈ ids (revived.foldl step empty).manifest := by decide +kernel
  exact (kept.detached paper.id acked).1 bound

end SamosaChat.Conversation.DocumentTurns
