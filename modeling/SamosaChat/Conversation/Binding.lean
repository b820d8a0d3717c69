import SamosaChat.Durable.SmallFile

set_option autoImplicit false

namespace SamosaChat.Conversation

open Utf8 Text FloatText Binary64 Json Buffers
open Durable

def isIdByte (c : UInt8) : Bool :=
  isLower c || isUpper c || isDigit c || c == 0x2d || c == 0x5f

def validConversationId (id : Bytes) : Bool :=
  id.all isIdByte && 0 < id.length && id.length < 100

structure ConversationId where
  text : Bytes
  valid : validConversationId text = true

structure ConversationBinding where
  modelId : Buffer 64
  modelVersion : Buffer 128
  modelBindingSource : Buffer 16
  createdAt : Buffer 32
  updatedAt : Buffer 32
deriving DecidableEq

def bindingMax : Nat := 65536

def bindingOf (root : Jval) : ConversationBinding where
  modelId := copied 64 root "model_id"
  modelVersion := copied 128 root "model_version"
  modelBindingSource := copied 16 root "model_binding_source"
  createdAt := copied 32 root "created_at"
  updatedAt := copied 32 root "updated_at"

def readBinding (raw : Bytes) : Option ConversationBinding :=
  match parsed raw with
  | some (.obj fields) =>
    let b := bindingOf (.obj fields)
    if b.modelId.text ≠ [] ∧ b.modelVersion.text ≠ [] then some b else none
  | _ => none

def conversationBindingLoad (calls : EventCalls) (file : Option Bytes) : Option ConversationBinding :=
  (readFileLimit calls bindingMax file).bind readBinding

def bindingText (id : ConversationId) (b : ConversationBinding) : Bytes :=
  utf8 "\x7b\"id\":" ++ quoted id.text ++ utf8 ",\"schema_version\":2,\"model_id\":" ++ quoted b.modelId.text ++
    utf8 ",\"model_version\":" ++ quoted b.modelVersion.text ++ utf8 ",\"model_binding_source\":" ++
    quoted b.modelBindingSource.text ++ utf8 ",\"created_at\":" ++ quoted b.createdAt.text ++ utf8 ",\"updated_at\":" ++
    quoted b.updatedAt.text ++ utf8 "\x7d"

def conversationBindingSave (calls : EventCalls) (id : ConversationId) (b : ConversationBinding) (file : Option Bytes) :
    Bool × Option Bytes :=
  if calls.builds then writeSmallFile calls (bindingText id b) file else (false, file)

structure Model where
  id : Bytes
  version : Bytes
deriving DecidableEq

def Model.cutId (model : Model) : Buffer 64 :=
  (pathCopy 64 model.id).1

def Model.cutVersion (model : Model) : Buffer 128 :=
  (pathCopy 128 model.version).1

def sameModel (existing : ConversationBinding) (model : Model) : Bool :=
  existing.modelId == model.cutId && existing.modelVersion == model.cutVersion

def fresh (model : Model) (source : Bytes) (now : Stamp) : ConversationBinding where
  modelId := (pathCopy 64 model.cutId.text).1
  modelVersion := (pathCopy 128 model.cutVersion.text).1
  modelBindingSource := (pathCopy 16 source).1
  createdAt := now.text
  updatedAt := now.text

inductive Reply
  | error (status : Nat) (code message : String)
  | binding (b : ConversationBinding)
  | forwarded (succeeded : Bool)
deriving DecidableEq

def givenText (root : Jval) (key : String) : Option Bytes :=
  match jsonGet root (utf8 key) with
  | some (.str (c :: rest)) => some (c :: rest)
  | _ => none

def sources : List Bytes :=
  [utf8 "explicit", utf8 "inferred", utf8 "unknown"]

def putRequest (body : Bytes) : Except Reply (Model × Bytes) :=
  match parsed body with
  | some (.obj fields) =>
    match givenText (.obj fields) "model_id", givenText (.obj fields) "model_version" with
    | some id, some version =>
      let source := (givenText (.obj fields) "model_binding_source").getD (utf8 "explicit")
      if source ∈ sources then .ok (⟨id, version⟩, source)
      else
        .error (.error 400 "invalid_binding_source" "model_binding_source must be explicit, inferred, or unknown.")
    | _, _ => .error (.error 400 "model_identity_required" "model_id and model_version are required.")
  | _ => .error (.error 400 "invalid_json" "Malformed request body.")

def turnRequest (body : Bytes) : Except Reply Model :=
  match (parsed body).map fun root => (givenText root "model_id", givenText root "model_version") with
  | some (some id, some version) => .ok ⟨id, version⟩
  | _ => .error (.error 400 "model_identity_required" "conversation_id requires model_id and model_version.")

section Stored

variable {id : ConversationId} {b : ConversationBinding}

def storedModel (file : Option Bytes) : Option Model :=
  (file.bind parsed).bind fun root =>
    match givenText root "model_id", givenText root "model_version" with
    | some id, some version => some ⟨id, version⟩
    | _, _ => none

structure Model.Fits (model : Model) : Prop where
  id : StringText model.id ∧ model.id ≠ [] ∧ model.id.length < 64
  version : StringText model.version ∧ model.version ≠ [] ∧ model.version.length < 128

variable {model : Model} {source : Bytes}

theorem cut_id_text (fits : model.Fits) : model.cutId.text = model.id :=
  path_copy_text fits.id.2.2

theorem cut_version_text (fits : model.Fits) : model.cutVersion.text = model.version :=
  path_copy_text fits.version.2.2

structure Clean (b : ConversationBinding) : Prop where
  modelId : StringText b.modelId.text
  modelVersion : StringText b.modelVersion.text
  source : StringText b.modelBindingSource.text
  created : StringText b.createdAt.text
  updated : StringText b.updatedAt.text

def bindingFields (id : ConversationId) (b : ConversationBinding) : List (String × Jval) :=
  [("id", .str id.text), ("schema_version", .num (integer false 2 (by decide))), ("model_id", .str b.modelId.text),
    ("model_version", .str b.modelVersion.text), ("model_binding_source", .str b.modelBindingSource.text),
    ("created_at", .str b.createdAt.text), ("updated_at", .str b.updatedAt.text)]

theorem id_byte_ascii : ∀ c : UInt8, isIdByte c = true → c.toNat < 0x80 ∧ c ≠ 0 :=
  every_byte (by decide +kernel)

theorem conversation_id_string (id : ConversationId) : StringText id.text := by
  have valid := id.valid
  simp only [validConversationId, Bool.and_eq_true] at valid
  have all := List.all_eq_true.mp valid.1.1
  apply ascii_string
  · exact fun c inside => (id_byte_ascii c (all c inside)).1
  · exact fun inside => (id_byte_ascii 0 (all 0 inside)).2 rfl

theorem binding_text_eq (id : ConversationId) (b : ConversationBinding) :
    bindingText id b = written (record (bindingFields id b)) := by
  have head : utf8 "\x7b\"id\":" = 0x7b :: 0x22 :: escaped (utf8 "id") ++ [0x22, 0x3a] := by decide
  have modelId : utf8 ",\"schema_version\":2,\"model_id\":" = 0x2c :: 0x22 :: escaped (utf8 "schema_version") ++
      0x22 :: 0x3a :: (FloatText.format (integer false 2 (by decide)) ++
        0x2c :: 0x22 :: escaped (utf8 "model_id") ++ [0x22, 0x3a]) := by decide +kernel
  have version : utf8 ",\"model_version\":" = 0x2c :: 0x22 :: escaped (utf8 "model_version") ++ [0x22, 0x3a] := by
    decide +kernel
  have source : utf8 ",\"model_binding_source\":" =
      0x2c :: 0x22 :: escaped (utf8 "model_binding_source") ++ [0x22, 0x3a] := by decide +kernel
  have created : utf8 ",\"created_at\":" = 0x2c :: 0x22 :: escaped (utf8 "created_at") ++ [0x22, 0x3a] := by decide +kernel
  have updated : utf8 ",\"updated_at\":" = 0x2c :: 0x22 :: escaped (utf8 "updated_at") ++ [0x22, 0x3a] := by decide +kernel
  have close : utf8 "\x7d" = [0x7d] := by decide
  rw [bindingText, head, modelId, version, source, created, updated, close]
  simp only [bindingFields, record, written, writtenFields, List.map_cons, List.map_nil, quoted_eq, if_true, if_false,
    Bool.false_eq_true, List.append_assoc, List.cons_append, List.nil_append, List.append_nil]

theorem binding_writable (clean : Clean b) : Writable (record (bindingFields id b)) := by
  apply record_writable
  intro field inside
  simp only [bindingFields, List.mem_cons, List.not_mem_nil, or_false] at inside
  rcases inside with rfl | rfl | rfl | rfl | rfl | rfl | rfl
  · exact ⟨by simp only; decide, conversation_id_string id⟩
  · exact ⟨by simp only; decide, printable_writable _ (integer_printable false (by decide))⟩
  · exact ⟨by simp only; decide, clean.modelId⟩
  · exact ⟨by simp only; decide, clean.modelVersion⟩
  · exact ⟨by simp only; decide, clean.source⟩
  · exact ⟨by simp only; decide, clean.created⟩
  · exact ⟨by simp only; decide, clean.updated⟩

theorem given_record {fields : List (String × Jval)} {key : String} {text : Bytes} (some_ : text ≠ [])
    (found : fields.lookup key = some (.str text)) : givenText (record fields) key = some text := by
  rw [givenText, get_record, found]
  cases text with
  | nil => exact absurd rfl some_
  | cons c rest => rfl

theorem source_string (known : source ∈ sources) : StringText (pathCopy 16 source).1.text := by
  simp only [sources, List.mem_cons, List.not_mem_nil, or_false] at known
  rcases known with rfl | rfl | rfl
  all_goals
    rw [path_copy_text (by decide)]
    exact literal_text (by decide)

theorem fresh_id (model : Model) (source : Bytes) (now : Stamp) : (fresh model source now).modelId = model.cutId :=
  path_copy_self _

theorem fresh_version (model : Model) (source : Bytes) (now : Stamp) : (fresh model source now).modelVersion = model.cutVersion :=
  path_copy_self _

theorem fresh_clean (now : Stamp) (fits : model.Fits) (known : source ∈ sources) : Clean (fresh model source now) where
  modelId := by
    rw [fresh_id, cut_id_text fits]
    exact fits.id.1
  modelVersion := by
    rw [fresh_version, cut_version_text fits]
    exact fits.version.1
  source := source_string known
  created := now.string
  updated := now.string

theorem stored_fresh {model : Model} {source : Bytes} (now : Stamp) (fits : model.Fits) (known : source ∈ sources) :
    storedModel (some (cstr (bindingText id (fresh model source now)))) = some model := by
  have clean : Clean (fresh model source now) := fresh_clean now fits known
  have text : cstr (bindingText id (fresh model source now)) = bindingText id (fresh model source now) := by
    apply cstr_self
    rw [binding_text_eq]
    exact visible_text (written_visible _)
  have writable : Writable (record (bindingFields id (fresh model source now))) := binding_writable clean
  have read := @parse_object _ [] writable List.not_mem_nil
  rw [List.append_nil] at read
  have modelId : givenText (record (bindingFields id (fresh model source now))) "model_id" = some model.id := by
    apply given_record fits.id.2.1
    rw [bindingFields, fresh_id, cut_id_text fits]
    rfl
  have version : givenText (record (bindingFields id (fresh model source now))) "model_version" = some model.version := by
    apply given_record fits.version.2.1
    rw [bindingFields, fresh_version, cut_version_text fits]
    rfl
  rw [storedModel, text, binding_text_eq, Option.bind_some, record, read, Option.bind_some, ← record, modelId, version]

theorem copied_given {cap : Nat} [NeZero cap] {root : Jval} {key : String} (some_ : (copied cap root key).text ≠ []) :
    ∃ text, givenText root key = some text ∧ copied cap root key = (pathCopy cap text).1 := by
  unfold copied givenText at *
  split at some_
  · rename_i text found
    rw [found]
    cases text with
    | nil => exact absurd List.take_nil some_
    | cons c rest => exact ⟨c :: rest, rfl, rfl⟩
  · exact absurd rfl some_

theorem loaded_stored {calls : EventCalls} {file : Option Bytes} (loaded : conversationBindingLoad calls file = some b) :
    ∃ model, storedModel file = some model ∧ b.modelId = model.cutId ∧ b.modelVersion = model.cutVersion := by
  obtain ⟨raw, read, found⟩ := Option.bind_eq_some_iff.mp loaded
  obtain ⟨rfl, _⟩ := read_some read
  unfold readBinding at found
  split at found
  · rename_i fields object_
    dsimp only at found
    split_ifs at found with some_
    cases found
    obtain ⟨id, id_, cutId⟩ := copied_given some_.1
    obtain ⟨version, version_, cutVersion⟩ := copied_given some_.2
    refine ⟨⟨id, version⟩, ?_, cutId, cutVersion⟩
    rw [storedModel, Option.bind_some, object_, Option.bind_some, id_, version_]
  · cases found

end Stored

end SamosaChat.Conversation
