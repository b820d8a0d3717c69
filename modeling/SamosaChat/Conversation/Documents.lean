import SamosaChat.Durable.SmallFile

set_option autoImplicit false

namespace SamosaChat.Conversation

open Utf8

inductive SourceKind
  | document
  | audio
deriving DecidableEq

inductive ReadMode
  | full
  | retrieval
deriving DecidableEq

structure ConversationDocument where
  attachmentId : String
  filename : Bytes
  sourceKind : SourceKind
  extractorFingerprint : Bytes
  mode : ReadMode
  addedAt : Bytes
  tokens : Nat
deriving DecidableEq

abbrev ConversationDocuments := List ConversationDocument

def maxConversationDocuments : Nat := 64

def ids (docs : ConversationDocuments) : List String :=
  docs.map ConversationDocument.attachmentId

def replaceDocument (candidate : ConversationDocument) : ConversationDocuments → Option ConversationDocuments
  | [] => none
  | doc :: rest =>
    if doc.attachmentId = candidate.attachmentId then some (candidate :: rest)
    else (replaceDocument candidate rest).map (doc :: ·)

def mergeDocument (all : ConversationDocuments) (candidate : ConversationDocument) : Option ConversationDocuments :=
  match replaceDocument candidate all with
  | some all => some all
  | none => if maxConversationDocuments ≤ all.length then none else some (all ++ [candidate])

-- conversation_documents_merge: what is written under the lock, if it is
def conversationDocumentsMerge (all add : ConversationDocuments) : Option ConversationDocuments :=
  add.foldlM mergeDocument all

-- conversation_documents_remove: none where the document is not found
def conversationDocumentsRemove (id : String) : ConversationDocuments → Option ConversationDocuments
  | [] => none
  | doc :: rest =>
    if doc.attachmentId = id then some rest else (conversationDocumentsRemove id rest).map (doc :: ·)

theorem ids_cons (doc : ConversationDocument) (rest : ConversationDocuments) :
    ids (doc :: rest) = doc.attachmentId :: ids rest := rfl

structure Manifest (docs : ConversationDocuments) : Prop where
  distinct : (ids docs).Nodup
  short : docs.length ≤ maxConversationDocuments

variable {candidate : ConversationDocument}

theorem replace_ids {docs all : ConversationDocuments} (replaced : replaceDocument candidate docs = some all) :
    ids all = ids docs ∧ candidate.attachmentId ∈ ids docs := by
  induction docs generalizing all with
  | nil => cases replaced
  | cons doc rest ih =>
    rw [replaceDocument] at replaced
    split_ifs at replaced with same
    · cases replaced
      rw [ids_cons, ids_cons, same]
      exact ⟨rfl, List.mem_cons_self⟩
    · obtain ⟨tail, found, rfl⟩ := Option.map_eq_some_iff.mp replaced
      obtain ⟨equal, inside⟩ := ih found
      rw [ids_cons, ids_cons]
      exact ⟨congrArg _ equal, List.mem_cons_of_mem _ inside⟩

theorem replace_absent {docs : ConversationDocuments}
    (absent : replaceDocument candidate docs = none) : candidate.attachmentId ∉ ids docs := by
  induction docs with
  | nil => exact List.not_mem_nil
  | cons doc rest ih =>
    rw [replaceDocument] at absent
    split_ifs at absent with same
    rw [Option.map_eq_none_iff] at absent
    rw [ids_cons, List.mem_cons, not_or]
    exact ⟨Ne.symm same, ih absent⟩

structure Merged (docs all : ConversationDocuments) (added : List String) : Prop where
  manifest : Manifest docs → Manifest all
  both : ∀ id, id ∈ ids all ↔ id ∈ ids docs ∨ id ∈ added

theorem merge_document {docs all : ConversationDocuments}
    (merged : mergeDocument docs candidate = some all) : Merged docs all [candidate.attachmentId] := by
  rw [mergeDocument] at merged
  cases replaced : replaceDocument candidate docs with
  | some others =>
    rw [replaced] at merged
    cases merged
    obtain ⟨same, inside⟩ := replace_ids replaced
    have length : all.length = docs.length := by
      have lengths := congrArg List.length same
      rw [ids, ids, List.length_map, List.length_map] at lengths
      exact lengths
    constructor
    case manifest => exact fun manifest => ⟨same ▸ manifest.distinct, length ▸ manifest.short⟩
    case both =>
      intro id
      rw [same, List.mem_singleton]
      constructor
      · exact .inl
      · rintro (old | rfl)
        · exact old
        · exact inside
  | none =>
    rw [replaced] at merged
    dsimp only at merged
    split_ifs at merged with full
    cases merged
    have joined : ids (docs ++ [candidate]) = ids docs ++ [candidate.attachmentId] := List.map_append
    constructor
    case manifest =>
      intro manifest
      constructor
      case distinct =>
        rw [joined]
        exact List.nodup_append_comm.mp (List.nodup_cons.mpr ⟨replace_absent replaced, manifest.distinct⟩)
      case short =>
        rw [List.length_append, List.length_singleton]
        omega
    case both =>
      intro id
      rw [joined, List.mem_append]

theorem documents_merge {docs add all : ConversationDocuments}
    (merged : conversationDocumentsMerge docs add = some all) : Merged docs all (ids add) := by
  induction add generalizing docs with
  | nil =>
    cases merged
    exact ⟨fun manifest => manifest, fun id => by simp [ids]⟩
  | cons candidate rest ih =>
    rw [conversationDocumentsMerge, List.foldlM_cons, Option.bind_eq_bind, Option.bind_eq_some_iff] at merged
    obtain ⟨middle, first, later⟩ := merged
    have one := merge_document first
    have others := ih later
    constructor
    case manifest => exact fun manifest => others.manifest (one.manifest manifest)
    case both =>
      intro id
      rw [others.both, one.both, ids_cons, List.mem_singleton, List.mem_cons, or_assoc]

section Removed

variable {id : String} {docs all : ConversationDocuments} (removed : conversationDocumentsRemove id docs = some all)
include removed

theorem remove_length : all.length + 1 = docs.length := by
  induction docs generalizing all with
  | nil => cases removed
  | cons doc rest ih =>
    rw [conversationDocumentsRemove] at removed
    split_ifs at removed with same
    · cases removed
      rfl
    · obtain ⟨tail, found, rfl⟩ := Option.map_eq_some_iff.mp removed
      rw [List.length_cons, List.length_cons, ih found]

theorem remove_ids (distinct : (ids docs).Nodup) : (ids all).Nodup ∧ ∀ other, other ∈ ids all ↔ other ∈ ids docs ∧ other ≠ id := by
  induction docs generalizing all with
  | nil => cases removed
  | cons doc rest ih =>
    rw [ids_cons, List.nodup_cons] at distinct
    rw [conversationDocumentsRemove] at removed
    split_ifs at removed with same
    · cases removed
      refine ⟨distinct.2, ?_⟩
      intro other
      rw [ids_cons, List.mem_cons, same]
      constructor
      · intro inside
        refine ⟨.inr inside, ?_⟩
        rintro rfl
        exact distinct.1 (same ▸ inside)
      · rintro ⟨rfl | inside, different⟩
        · exact absurd rfl different
        · exact inside
    · obtain ⟨tail, found, rfl⟩ := Option.map_eq_some_iff.mp removed
      obtain ⟨kept, others⟩ := ih found distinct.2
      constructor
      · rw [ids_cons, List.nodup_cons]
        exact ⟨fun inside => distinct.1 ((others _).mp inside).1, kept⟩
      · intro other
        rw [ids_cons, ids_cons, List.mem_cons, List.mem_cons, others other]
        constructor
        · rintro (rfl | ⟨inside, different⟩)
          · exact ⟨.inl rfl, same⟩
          · exact ⟨.inr inside, different⟩
        · rintro ⟨rfl | inside, different⟩
          · exact .inl rfl
          · exact .inr ⟨inside, different⟩

theorem documents_remove (manifest : Manifest docs) : Manifest all ∧ ∀ other, other ∈ ids all ↔ other ∈ ids docs ∧ other ≠ id := by
  obtain ⟨distinct, others⟩ := remove_ids removed manifest.distinct
  have length := remove_length removed
  have short := manifest.short
  exact ⟨⟨distinct, by omega⟩, others⟩

end Removed

end SamosaChat.Conversation
