import SamosaChat.Json.Value
import SamosaChat.Lib.Find

set_option autoImplicit false

namespace SamosaChat.Memory

open Utf8 Text Json Binary64

def isWord (c : UInt8) : Bool :=
  isAlnum c || c ≥ 128

def byteBefore (text : Bytes) (at_ : Nat) : UInt8 :=
  if at_ = 0 then 0 else text.getD (at_ - 1) 0

def byteAfter (text : Bytes) (end_ : Nat) : UInt8 :=
  text.getD end_ 0

def boundaries (text : Bytes) (at_ length : Nat) : Bool :=
  !isWord (byteBefore text at_) && !isWord (byteAfter text (at_ + length))

def memoryContainsIdentity (text identity : Bytes) : Bool :=
  if identity = [] then false
  else (foldHits identity text).any fun hit => boundaries text hit identity.length

def memoryQuoteIdentity (text : Option Bytes) (quote subject : Bytes) : Bool :=
  match text with
  | none => false
  | some text =>
    if quote = [] ∨ subject = [] then false
    else
      (hits quote text).any fun span =>
        (foldHits subject quote).any fun offset => boundaries text (span + offset) subject.length

def Names (text subject : Bytes) : Prop :=
  ∃ before inner after, text = before ++ inner ++ after ∧ fold inner = fold subject ∧
    (∀ c ∈ before.getLast?, isWord c = false) ∧ ∀ c ∈ after.head?, isWord c = false

def Quotes (text quote subject : Bytes) : Prop :=
  ∃ before head inner tail after, text = before ++ (head ++ inner ++ tail) ++ after ∧ quote = head ++ inner ++ tail ∧
    fold inner = fold subject ∧ (∀ c ∈ (before ++ head).getLast?, isWord c = false) ∧
    ∀ c ∈ (tail ++ after).head?, isWord c = false

theorem boundaries_iff {before inner after : Bytes} :
    boundaries (before ++ inner ++ after) before.length inner.length = true ↔
      (∀ c ∈ before.getLast?, isWord c = false) ∧ ∀ c ∈ after.head?, isWord c = false := by
  have zero_ : isWord 0 = false := by decide
  have left : byteBefore (before ++ inner ++ after) before.length = before.getLast?.getD 0 := by
    unfold byteBefore
    split_ifs with none_
    · rw [List.length_eq_zero_iff.mp none_]
      rfl
    · rw [List.getLast?_eq_getElem?, List.append_assoc, List.getD_eq_getElem?_getD, List.getElem?_append_left (by omega)]
  have right : byteAfter (before ++ inner ++ after) (before.length + inner.length) = after.head?.getD 0 := by
    unfold byteAfter
    rw [List.getD_eq_getElem?_getD, List.getElem?_append_right (by simp), List.length_append, Nat.sub_self, List.head?_eq_getElem?]
  rw [boundaries, left, right, Bool.and_eq_true, Bool.not_eq_true', Bool.not_eq_true']
  refine and_congr ?_ ?_
  · cases before.getLast? with
    | none => simp [zero_]
    | some c => simp
  · cases after.head? with
    | none => simp [zero_]
    | some c => simp

theorem contains_identity_iff {text identity : Bytes} (some_ : identity ≠ []) :
    memoryContainsIdentity text identity = true ↔ Names text identity := by
  rw [memoryContainsIdentity, if_neg some_, List.any_eq_true]
  constructor
  · rintro ⟨hit, inside, bounded⟩
    obtain ⟨before, inner, after, rfl, rfl, same⟩ := mem_fold_hits.mp inside
    rw [← fold_length same] at bounded
    exact ⟨before, inner, after, rfl, same, boundaries_iff.mp bounded⟩
  · rintro ⟨before, inner, after, rfl, same, bounded⟩
    refine ⟨before.length, mem_fold_hits.mpr ⟨before, inner, after, rfl, rfl, same⟩, ?_⟩
    rw [← fold_length same]
    exact boundaries_iff.mpr bounded

theorem quote_identity_iff {text quote subject : Bytes} (some_ : quote ≠ []) (some' : subject ≠ []) :
    memoryQuoteIdentity (some text) quote subject = true ↔ Quotes text quote subject := by
  have around : ∀ before head inner tail after : Bytes,
      boundaries (before ++ (head ++ inner ++ tail) ++ after) (before.length + head.length) inner.length = true ↔
        (∀ c ∈ (before ++ head).getLast?, isWord c = false) ∧ ∀ c ∈ (tail ++ after).head?, isWord c = false := by
    intro before head inner tail after
    rw [← @boundaries_iff _ inner _, List.length_append]
    simp only [List.append_assoc]
  rw [memoryQuoteIdentity, if_neg (by simp [some_, some']), List.any_eq_true]
  constructor
  · rintro ⟨span, inside, names⟩
    obtain ⟨offset, among, bounded⟩ := List.any_eq_true.mp names
    obtain ⟨before, after, rfl, rfl⟩ := mem_hits.mp inside
    obtain ⟨head, inner, tail, rfl, rfl, same⟩ := mem_fold_hits.mp among
    rw [← fold_length same] at bounded
    exact ⟨before, head, inner, tail, after, rfl, rfl, same, (around _ _ _ _ _).mp bounded⟩
  · rintro ⟨before, head, inner, tail, after, rfl, rfl, same, bounded⟩
    refine ⟨before.length, mem_hits.mpr ⟨before, after, rfl, rfl⟩, List.any_eq_true.mpr ⟨head.length, ?_, ?_⟩⟩
    · exact mem_fold_hits.mpr ⟨head, inner, tail, rfl, rfl, same⟩
    · rw [← fold_length same]
      exact (around _ _ _ _ _).mpr bounded

def memorySourceLimit : Nat := 80

structure MemorySource where
  path : Bytes
  preview : Option Bytes
  previewComplete : Bool
  previewLiteral : Bool

-- What the membership array says of a source: 0, 1 and 2.
inductive Verdict
  | unmatched
  | matched
  | uncertain
deriving DecidableEq

abbrev Verdicts := Nat → Verdict

def slash : UInt8 := 0x2f

def pathBasename (path : Bytes) : Bytes :=
  (path.reverse.takeWhile (· ≠ slash)).reverse

def memoryRelativePath (root : Bytes) (source : MemorySource) : Bytes :=
  if root.isPrefixOf source.path && source.path[root.length]? == some slash then source.path.drop (root.length + 1)
  else pathBasename source.path

def MemorySource.literal (source : MemorySource) : Option Bytes :=
  if source.previewLiteral then source.preview else none

def memoryNamedFilenameProof (root subject : Bytes) (source : MemorySource) : Bool :=
  memoryContainsIdentity (memoryRelativePath root source) subject

def memoryProofGrounded (root subject : Bytes) (named : Bool) (source : MemorySource) (quote : Bytes) : Bool :=
  let path := memoryRelativePath root source
  if quote = [] then false
  else if (find quote path).isNone && ((source.literal.bind (find quote)).isNone) then false
  else !named || memoryQuoteIdentity (some path) quote subject || memoryQuoteIdentity source.literal quote subject

-- A source number of a reply: an integer from 0 on and below the count.
def sourceNumber (count : Nat) (number : Option Jval) : Option Nat :=
  match number with
  | some (.num num) => (natural num).bind fun index => if index < count then some index else none
  | _ => none

def matchQuote (item : Jval) : Option Bytes :=
  match jsonGet item (utf8 "quote") with
  | some (.str quote) => if quote = [] ∨ quote.length > 512 then none else some quote
  | _ => none

def matchNumber (count : Nat) (item : Jval) : Option Nat :=
  (matchQuote item).bind fun _ => sourceNumber count (jsonGet item (utf8 "number"))

structure Marks where
  seen : Nat → Bool
  membership : Verdicts

def mark (verdict : Verdict) : List (Option Nat) → Marks → Option Marks
  | [], marks => some marks
  | none :: _, _ => none
  | some index :: numbers, marks =>
    if marks.seen index then none
    else
      mark verdict numbers
        { seen := Function.update marks.seen index true, membership := Function.update marks.membership index verdict }

def listOf (reply : Option Jval) (key : String) : Option (List Jval) :=
  match reply.bind (jsonGet · (utf8 key)) with
  | some (.arr items) => some items
  | _ => none

def memoryMembershipValid (reply : Option Jval) (count : Nat) (membership : Verdicts) : Option Verdicts :=
  if count > memorySourceLimit then none
  else
    match listOf reply "match", listOf reply "uncertain" with
    | some matches_, some unsure =>
      if matches_.length + unsure.length > count then none
      else
        (mark .matched (matches_.map (matchNumber count)) { seen := fun _ => false, membership := membership }).bind
          fun marks =>
            (mark .uncertain (unsure.map fun item => sourceNumber count (some item)) marks).map (·.membership)
    | _, _ => none

def memoryRequestedSubject (question : Bytes) (reply : Option Jval) : Option Bytes :=
  match reply.bind (jsonGet · (utf8 "subject")) with
  | some (.str subject) =>
    if 2 ≤ subject.length ∧ subject.length ≤ 128 ∧ memoryContainsIdentity question subject = true then some subject
    else none
  | _ => none

def repeatsSubject (reply : Option Jval) (subject : Bytes) : Bool :=
  match reply.bind (jsonGet · (utf8 "subject")) with
  | some (.str identity) =>
    decide (2 ≤ identity.length) && decide (identity.length ≤ 128) && fold identity == fold subject
  | _ => false

def checkProof (root subject : Bytes) (named : Bool) (sources : List MemorySource) (item : Jval) (membership : Verdicts) :
    Verdicts :=
  match matchNumber sources.length item, matchQuote item with
  | some index, some quote =>
    match sources[index]? with
    | some source =>
      if memoryProofGrounded root subject named source quote then membership
      else if named && memoryNamedFilenameProof root subject source then membership
      else Function.update membership index (if source.previewComplete then .unmatched else .uncertain)
    | none => membership
  | _, _ => membership

def checkProofs (root subject : Bytes) (named : Bool) (sources : List MemorySource) : List Jval → Verdicts → Verdicts
  | [], membership => membership
  | item :: items, membership =>
    checkProofs root subject named sources items (checkProof root subject named sources item membership)

def sweep (root subject : Bytes) (named : Bool) (sources : List MemorySource) (membership : Verdicts) : Verdicts :=
  fun i =>
    match sources[i]? with
    | some source =>
      if membership i = .unmatched ∧
          (source.previewComplete = false ∨
            (named && (memoryContainsIdentity (memoryRelativePath root source) subject ||
              memoryContainsIdentity (source.preview.getD []) subject)) = true) then .uncertain
      else membership i
    | none => membership i

def isNamed (route : Jval) : Bool :=
  match jsonGet route (utf8 "membership_kind") with
  | some (.str kind) => kind != utf8 "semantic"
  | _ => true

-- The membership of the sources and the subject, none when a reply is not valid. The replies are whatever was
-- parsed of what the models said; `semantic` is the outcome of the semantic branch.
def memoryMembership (root question : Bytes) (route : Jval) (sources : List MemorySource)
    (subjectReply reply : Option Jval) (semantic : Option Verdicts) : Option (Bytes × Verdicts) :=
  let named := isNamed route
  match memoryRequestedSubject question subjectReply with
  | none => none
  | some subject =>
    if named = false then semantic.map fun membership => (subject, membership)
    else
      match memoryMembershipValid reply sources.length (fun _ => .unmatched) with
      | none => none
      | some membership =>
        if repeatsSubject reply subject then
          let checked := checkProofs root subject named sources ((listOf reply "match").getD []) membership
          some (subject, sweep root subject named sources checked)
        else none

end SamosaChat.Memory
