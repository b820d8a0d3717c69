import SamosaChat.Conversation.Binding
import SamosaChat.Lib.Runs

set_option autoImplicit false

namespace SamosaChat.Conversation

open Utf8 Text Json Durable Runs

inductive Request
  | get
  | put (body : Bytes)
  | turn (body : Bytes) (active : Option (Bytes × Bytes))

inductive Stage
  | saving (model : Model) (source : Bytes) (turn : Bool)
  | checked (model : Model)
  | unchecked (model : Model)
deriving DecidableEq

structure World where
  file : Option Bytes
  held : Nat → Option Stage
  acks : List Model
  answers : List (Nat × Reply)

inductive Event
  | arrive (id : Nat) (request : Request) (calls : EventCalls)
  | save (id : Nat) (now : Stamp) (calls : EventCalls)
  | forward (id : Nat) (succeeded : Bool)

def settle (world : World) (id : Nat) (reply : Reply) (ack : Option Model) : World :=
  { world with
    held := Function.update world.held id none
    acks := world.acks ++ ack.toList
    answers := world.answers ++ [(id, reply)] }

def hold (world : World) (id : Nat) (stage : Stage) : World :=
  { world with held := Function.update world.held id (some stage) }

def mismatch (message : String) : Reply :=
  .error 409 "conversation_model_mismatch" message

def arrivePut (world : World) (id : Nat) (loaded : Option ConversationBinding) (model : Model) (source : Bytes) : World :=
  match loaded with
  | some existing =>
    if sameModel existing model then settle world id (.binding existing) (some model)
    else settle world id (mismatch "This conversation is already bound to a different model.") none
  | none => hold world id (.saving model source false)

def arriveTurn (world : World) (id : Nat) (loaded : Option ConversationBinding) (model : Model)
    (active : Option (Bytes × Bytes)) : World :=
  match active with
  | none => hold world id (.unchecked model)
  | some (activeId, activeVersion) =>
    if activeId ≠ model.cutId.text ∨ activeVersion ≠ model.cutVersion.text then
      settle world id (mismatch "This conversation's model is not the currently active model.") none
    else
      match loaded with
      | some existing =>
        if sameModel existing model then hold world id (.checked model)
        else settle world id (mismatch "This conversation is bound to a different model.") none
      | none => hold world id (.saving model (utf8 "explicit") true)

def step (conversation : ConversationId) (world : World) : Event → World
  | .arrive id request calls =>
    let loaded := conversationBindingLoad calls world.file
    match request with
    | .get =>
      match loaded with
      | some b => settle world id (.binding b) (some ⟨b.modelId.text, b.modelVersion.text⟩)
      | none =>
        settle world id (.error 404 "conversation_unbound" "This conversation has no recorded model binding.") none
    | .put body =>
      match putRequest body with
      | .ok (model, source) => arrivePut world id loaded model source
      | .error refusal => settle world id refusal none
    | .turn body active =>
      match turnRequest body with
      | .ok model => arriveTurn world id loaded model active
      | .error refusal => settle world id refusal none
  | .save id now calls =>
    match world.held id with
    | some (.saving model source turn) =>
      let b := fresh model source now
      let (saved, file) := conversationBindingSave calls conversation b world.file
      if saved then
        if turn then hold { world with file := file } id (.checked model)
        else settle { world with file := file } id (.binding b) (some model)
      else
        settle { world with file := file } id
          (.error 500 "binding_write_failed" "The conversation binding could not be saved.") none
    | _ => world
  | .forward id succeeded =>
    match world.held id with
    | some (.checked model) => settle world id (.forwarded succeeded) (if succeeded then some model else none)
    | some (.unchecked model) => settle world id (.forwarded succeeded) (if succeeded then some model else none)
    | _ => world

structure Kept (world : World) : Prop where
  one : ∀ model ∈ world.acks, ∀ other ∈ world.acks, other = model
  stored : ∀ model ∈ world.acks, storedModel world.file = some model

def checkedModel : Request → Option Model
  | .get => none
  | .put body => (putRequest body).toOption.map Prod.fst
  | .turn body active => active.bind fun _ => (turnRequest body).toOption

def Good (world : World) : Event → Prop
  -- The names fit into their buffers, unless another model's binding is found.
  | .arrive _ request calls => ∀ model, checkedModel request = some model →
      (∀ existing, conversationBindingLoad calls world.file = some existing → sameModel existing model = true) → model.Fits
  -- When a binding is written, the file holds no binding of another model.
  | .save id _ calls => ∀ model source turn, world.held id = some (.saving model source turn) → calls.builds = true →
      calls.writesFile = true → ∀ other, storedModel world.file = some other → other = model
  -- A turn that was not checked does not succeed, but for the model the conversation is bound to.
  | .forward id succeeded => ∀ model, world.held id = some (.unchecked model) → succeeded = true →
      storedModel world.file = some model

structure Inv (world : World) : Prop where
  fits : ∀ model, storedModel world.file = some model → model.Fits
  acked : ∀ model ∈ world.acks, storedModel world.file = some model
  checked : ∀ id model, world.held id = some (.checked model) → storedModel world.file = some model
  saving : ∀ id model source turn, world.held id = some (.saving model source turn) → model.Fits ∧ source ∈ sources

section Steps

variable {conversation : ConversationId} {world : World} {id : Nat}

theorem inv_settle (inv : Inv world) (reply : Reply) {ack : Option Model}
    (stored : ∀ model ∈ ack, storedModel world.file = some model) : Inv (settle world id reply ack) where
  fits := inv.fits
  acked := by
    intro model inside
    rcases List.mem_append.mp inside with old | new
    · exact inv.acked model old
    · exact stored model (Option.mem_toList.mp new)
  checked := by
    intro other model held
    rw [settle] at held
    dsimp only at held
    rw [Function.update_apply] at held
    split_ifs at held with same
    exact inv.checked other model held
  saving := by
    intro other model source turn held
    rw [settle] at held
    dsimp only at held
    rw [Function.update_apply] at held
    split_ifs at held with same
    exact inv.saving other model source turn held

theorem inv_hold (inv : Inv world) {stage : Stage} (checked : ∀ model, stage = .checked model → storedModel world.file = some model)
    (saving : ∀ model source turn, stage = .saving model source turn → model.Fits ∧ source ∈ sources) :
    Inv (hold world id stage) where
  fits := inv.fits
  acked := inv.acked
  checked := by
    intro other model held
    rw [hold] at held
    dsimp only at held
    rw [Function.update_apply] at held
    split_ifs at held with same
    · exact checked model (Option.some.inj held)
    · exact inv.checked other model held
  saving := by
    intro other model source turn held
    rw [hold] at held
    dsimp only at held
    rw [Function.update_apply] at held
    split_ifs at held with same
    · exact saving model source turn (Option.some.inj held)
    · exact inv.saving other model source turn held

variable {calls : EventCalls} {model : Model} {source : Bytes}

theorem found_stored (inv : Inv world) {existing : ConversationBinding}
    (loaded : conversationBindingLoad calls world.file = some existing) (same : sameModel existing model = true)
    (fits : model.Fits) : storedModel world.file = some model := by
  obtain ⟨stored, stored_, id_, version_⟩ := loaded_stored loaded
  have stored_fits := inv.fits stored stored_
  simp only [sameModel, Bool.and_eq_true, beq_iff_eq] at same
  have sameId : stored.id = model.id := by
    rw [← cut_id_text stored_fits, ← id_, same.1, cut_id_text fits]
  have sameVersion : stored.version = model.version := by
    rw [← cut_version_text stored_fits, ← version_, same.2, cut_version_text fits]
  rw [stored_]
  cases stored
  cases model
  cases sameId
  cases sameVersion
  rfl

theorem put_source {body : Bytes} (put : putRequest body = .ok (model, source)) : source ∈ sources := by
  unfold putRequest at put
  split at put
  · split at put
    · dsimp only at put
      split_ifs at put with known
      cases put
      exact known
    · cases put
  · cases put

theorem inv_put (inv : Inv world) (known : source ∈ sources)
    (fits : (∀ existing, conversationBindingLoad calls world.file = some existing → sameModel existing model = true) → model.Fits) :
    Inv (arrivePut world id (conversationBindingLoad calls world.file) model source) := by
  unfold arrivePut
  split
  · rename_i existing loaded
    split_ifs with same
    · have whole := found_stored inv loaded same (fits fun other other_ => by
        rw [loaded] at other_
        cases other_
        exact same)
      exact inv_settle inv _ fun model' inside => by
        cases inside
        exact whole
    · exact inv_settle inv _ fun _ inside => by cases inside
  · rename_i loaded
    have whole := fits fun other other_ => by
      rw [loaded] at other_
      cases other_
    apply inv_hold inv
    · exact fun _ same => by cases same
    · intro model' source' turn same
      cases same
      exact ⟨whole, known⟩

theorem inv_turn (inv : Inv world) {active : Option (Bytes × Bytes)} (fits : active.isSome = true →
      (∀ existing, conversationBindingLoad calls world.file = some existing → sameModel existing model = true) → model.Fits) :
    Inv (arriveTurn world id (conversationBindingLoad calls world.file) model active) := by
  unfold arriveTurn
  split
  · apply inv_hold inv
    · exact fun _ same => by cases same
    · exact fun _ _ _ same => by cases same
  · split_ifs with other
    · exact inv_settle inv _ fun _ inside => by cases inside
    · split
      · rename_i existing loaded
        split_ifs with same
        · have whole := found_stored inv loaded same (fits rfl fun other other_ => by
            rw [loaded] at other_
            cases other_
            exact same)
          apply inv_hold inv
          · intro model' same
            cases same
            exact whole
          · exact fun _ _ _ same => by cases same
        · exact inv_settle inv _ fun _ inside => by cases inside
      · rename_i loaded
        have whole := fits rfl fun other other_ => by
          rw [loaded] at other_
          cases other_
        apply inv_hold inv
        · exact fun _ same => by cases same
        · intro model' source turn same
          cases same
          exact ⟨whole, List.mem_cons_self⟩

theorem binding_save_eq (calls : EventCalls) (b : ConversationBinding) (file : Option Bytes) :
    conversationBindingSave calls conversation b file =
      if calls.builds && calls.writesFile then (true, some (cstr (bindingText conversation b))) else (false, file) := by
  rw [conversationBindingSave]
  cases calls.builds with
  | false => rfl
  | true => rfl

theorem inv_saved (inv : Inv world) {model : Model} {source : Bytes} (now : Stamp) (fits : model.Fits)
    (known : source ∈ sources) (own : ∀ other, storedModel world.file = some other → other = model) :
    Inv { world with file := some (cstr (bindingText conversation (fresh model source now))) } := by
  have stored : storedModel (some (cstr (bindingText conversation (fresh model source now)))) = some model :=
    stored_fresh now fits known
  constructor
  · intro other other_
    rw [stored] at other_
    cases other_
    exact fits
  · intro other inside
    rw [own other (inv.acked other inside)]
    exact stored
  · intro id other held
    rw [own other (inv.checked id other held)]
    exact stored
  · exact inv.saving

theorem inv_step (world : World) (event : Event) (inv : Inv world) (good : Good world event) :
    Inv (step conversation world event) := by
  cases event with
  | arrive id request calls =>
    cases request with
    | get =>
      rw [step]
      cases loaded : conversationBindingLoad calls world.file with
      | none => exact inv_settle inv _ fun _ inside => by cases inside
      | some b =>
        obtain ⟨stored, stored_, id_, version_⟩ := loaded_stored loaded
        have fits := inv.fits stored stored_
        apply inv_settle inv
        intro model inside
        cases inside
        rw [id_, version_, cut_id_text fits, cut_version_text fits]
        exact stored_
    | put body =>
      rw [step]
      cases put : putRequest body with
      | error refusal => exact inv_settle inv _ fun _ inside => by cases inside
      | ok pair =>
        obtain ⟨model, source⟩ := pair
        exact inv_put inv (put_source put) (good model (by rw [checkedModel, put]; rfl))
    | turn body active =>
      rw [step]
      cases turn : turnRequest body with
      | error refusal => exact inv_settle inv _ fun _ inside => by cases inside
      | ok model =>
        apply inv_turn inv
        intro ready
        obtain ⟨pair, active_⟩ := Option.isSome_iff_exists.mp ready
        exact good model (by rw [checkedModel, active_, turn]; rfl)
  | save id now calls =>
    rw [step]
    split
    · rename_i model source turn held
      obtain ⟨fits, known⟩ := inv.saving id model source turn held
      dsimp only
      rw [binding_save_eq]
      cases works : calls.builds && calls.writesFile with
      | false => exact inv_settle inv _ fun _ inside => by cases inside
      | true =>
        obtain ⟨builds, writes⟩ := Bool.and_eq_true_iff.mp works
        have own := good model source turn held builds writes
        have written_ := @inv_saved conversation _ inv model source now fits known own
        have stored := @stored_fresh conversation model source now fits known
        cases turn with
        | true =>
          apply inv_hold written_
          · intro other same
            cases same
            exact stored
          · exact fun _ _ _ same => by cases same
        | false =>
          apply inv_settle written_
          intro other inside
          cases inside
          exact stored
    · exact inv
  | forward id succeeded =>
    rw [step]
    split
    · rename_i model held
      apply inv_settle inv
      intro other inside
      cases succeeded with
      | false => cases inside
      | true =>
        cases inside
        exact inv.checked id model held
    · rename_i model held
      apply inv_settle inv
      intro other inside
      cases succeeded with
      | false => cases inside
      | true =>
        cases inside
        exact good model held rfl
    · exact inv

end Steps

-- A conversation that starts without a binding is answered as bound to one model only, which is the one in the file.
theorem binding_write_once (conversation : ConversationId) :
    ∀ world events, storedModel world.file = none → world.held = (fun _ => none) → world.acks = [] →
      Along (step conversation) Good world events → Kept (events.foldl (step conversation) world) := by
  intro world events unbound idle fresh good
  have inv : Inv (events.foldl (step conversation) world) := by
    apply along_invariant inv_step _ events good
    constructor
    · intro model stored
      rw [unbound] at stored
      cases stored
    · rw [fresh]
      exact fun _ inside => absurd inside List.not_mem_nil
    · rw [idle]
      exact fun _ _ held => by cases held
    · rw [idle]
      exact fun _ _ _ _ held => by cases held
  refine ⟨?_, inv.acked⟩
  intro model inside other inside'
  exact Option.some.inj ((inv.acked other inside').symm.trans (inv.acked model inside))

section Races

def someConversation : ConversationId where
  text := utf8 "c1"
  valid := by decide

def newWorld : World where
  file := none
  held := fun _ => none
  acks := []
  answers := []

def putQwen : Request :=
  .put (utf8 "\x7b\"model_id\":\"qwen\",\"model_version\":\"a.gguf\"\x7d")

def putBonsai : Request :=
  .put (utf8 "\x7b\"model_id\":\"bonsai\",\"model_version\":\"b.gguf\"\x7d")

def racing : List Event :=
  [.arrive 0 putQwen calm, .arrive 1 putBonsai calm, .save 0 morning calm, .save 1 morning calm]

def apart : List Event :=
  [.arrive 0 putQwen calm, .save 0 morning calm, .arrive 1 putBonsai calm]

theorem racing_acks : (racing.foldl (step someConversation) newWorld).acks =
    [⟨utf8 "qwen", utf8 "a.gguf"⟩, ⟨utf8 "bonsai", utf8 "b.gguf"⟩] := by
  decide +kernel

-- Two models are acknowledged for one conversation.
theorem binding_overwritten :
    ¬∀ conversation world events, storedModel world.file = none → world.held = (fun _ => none) → world.acks = [] →
      Kept (List.foldl (step conversation) world events) := by
  intro all
  have one := (all someConversation newWorld racing rfl rfl rfl).one
  rw [racing_acks] at one
  exact absurd (one _ List.mem_cons_self _ (List.mem_cons_of_mem _ List.mem_cons_self)) (by decide)

def literalModel (id version : String) : Model :=
  ⟨utf8 id, utf8 version⟩

theorem qwen_fits : (literalModel "qwen" "a.gguf").Fits where
  id := ⟨literal_text (by decide), by decide, by decide⟩
  version := ⟨literal_text (by decide), by decide, by decide⟩

theorem bonsai_fits : (literalModel "bonsai" "b.gguf").Fits where
  id := ⟨literal_text (by decide), by decide, by decide⟩
  version := ⟨literal_text (by decide), by decide, by decide⟩

theorem apart_good : Along (step someConversation) Good newWorld apart := by
  have qwen : checkedModel putQwen = some (literalModel "qwen" "a.gguf") := by decide +kernel
  have bonsai : checkedModel putBonsai = some (literalModel "bonsai" "b.gguf") := by decide +kernel
  have file : (step someConversation newWorld (.arrive 0 putQwen calm)).file = none := by decide +kernel
  refine ⟨?_, ?_, ?_, trivial⟩
  · intro model named _
    rw [qwen, Option.some.injEq] at named
    rw [← named]
    exact qwen_fits
  · intro model source turn _ _ _ other stored
    rw [file] at stored
    cases stored
  · intro model named _
    rw [bonsai, Option.some.injEq] at named
    rw [← named]
    exact bonsai_fits

theorem binding_write_once_apart : Kept (apart.foldl (step someConversation) newWorld) :=
  binding_write_once someConversation newWorld apart rfl rfl rfl apart_good

end Races

end SamosaChat.Conversation
