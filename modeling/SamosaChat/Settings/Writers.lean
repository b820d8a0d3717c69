import SamosaChat.Settings.Config
import SamosaChat.Lib.ReadModifyWrite

set_option autoImplicit false

namespace SamosaChat.Settings

open Utf8 Text Json Durable Runs

structure Backend where
  text : Bytes
  string : StringText text

instance : DecidableEq Backend := fun backend other =>
  decidable_of_iff (backend.text = other.text) ⟨fun same => by cases backend; cases other; cases same; rfl, congrArg Backend.text⟩

structure Checked where
  config : RuntimeConfig
  valid : config.Valid
deriving DecidableEq

inductive Request
  | runtime (backend : Backend) (config : Checked)
  | consent (body : Bytes)

inductive Update
  | runtime (backend : Backend) (config : Checked)
  | consent (granted : Bool)
deriving DecidableEq

inductive Reply
  | error (status : Nat) (code message : String)
  | result (saved : Bool)
  | configuration
deriving DecidableEq

def Reply.acknowledges : Reply → Bool
  | .error _ _ _ => false
  | .result saved => saved
  | .configuration => true

def admission : Request → Except Reply Update
  | .runtime backend config => .ok (.runtime backend config)
  | .consent body =>
    match (parsed body).bind fun body => jsonGet body (utf8 "granted") with
    | some (.bool granted) => .ok (.consent granted)
    | _ => .error (.error 400 "granted_required" "A boolean \"granted\" is required.")

def updateText : Update → Option Members → Bytes
  | .runtime backend config, root => runtimeConfigText root backend.text config.config
  | .consent granted, root => webConsentText root (verdictText granted)

def reply : Update → Bool → Reply
  | .runtime _ _, saved => .result saved
  | .consent _, true => .configuration
  | .consent _, false => .error 500 "consent_failed" "Could not save the choice to config.json."

structure World where
  file : Option Bytes
  held : Nat → Option (Update × Option Members)
  acked : List Update
  answers : List (Nat × Reply)

inductive Event
  | load (id : Nat) (request : Request) (calls : EventCalls)
  | save (id : Nat) (calls : EventCalls)

def step (world : World) : Event → World
  | .load id request calls =>
    match admission request with
    | .ok update => { world with held := Function.update world.held id (some (update, configRoot calls world.file)) }
    | .error refusal =>
      { world with
        held := Function.update world.held id none
        answers := world.answers ++ [(id, refusal)] }
  | .save id calls =>
    match world.held id with
    | none => world
    | some (update, root) =>
      let (written, file) :=
        if calls.builds then writeSmallFile calls (updateText update root) world.file else (false, world.file)
      let answer := reply update written
      { file := file
        held := Function.update world.held id none
        acked := if answer.acknowledges then world.acked ++ [update] else world.acked
        answers := world.answers ++ [(id, answer)] }

def shown (file : Option Bytes) : Members :=
  (configRoot calm file).getD []

def apply (fields : Members) : Update → Members
  | .runtime backend config => saved backend.text config.config fields
  | .consent granted => consented granted fields

def places : Update → List (List Bytes)
  | .runtime backend _ => [[utf8 "runtime", utf8 "cpu_threads"], [utf8 "runtime", utf8 "models", backend.text]]
  | .consent _ => [[utf8 "search", utf8 "consent"]]

def Elsewhere (path : List Bytes) (update : Update) : Prop :=
  ∀ place ∈ places update, Apart place path

def sameKind : Update → Update → Bool
  | .runtime _ _, .runtime _ _ => true
  | .consent _, .consent _ => true
  | _, _ => false

def ReadsBack (file : Option Bytes) : Update → Prop
  | .runtime backend config => runtimeConfigLoad (configRoot calm file) backend.text = config.config
  | .consent granted => webConsentLoad (configRoot calm file) = if granted then .granted else .denied

structure Whole (content : Bytes) : Prop where
  small : content.length ≤ configMax
  object : ∃ fields rest, jsonParse content = .ok (.obj fields, rest) ∧ jWs rest = []

structure Kept (start : Option Bytes) (world : World) : Prop where
  serial : shown world.file = world.acked.foldl apply (shown start)
  others : ∀ path, (∀ made ∈ world.acked, Elsewhere path made) →
    lookup path (.obj (shown world.file)) = lookup path (.obj (shown start))
  unlost : ∀ before made after path, world.acked = before ++ made :: after → (∀ later ∈ after, Elsewhere path later) →
    lookup path (.obj (shown world.file)) = lookup path (.obj (apply (before.foldl apply (shown start)) made))
  readBack : ∀ before made after, world.acked = before ++ made :: after → (∀ later ∈ after, sameKind made later = false) →
    ReadsBack world.file made
  unread : ∀ content, start = some content → ¬Whole content → world.file = start

def room : Update → Nat
  | .runtime backend config =>
    growth [utf8 "runtime", utf8 "cpu_threads"] (specValue config.config.cpu) +
      growth [utf8 "runtime", utf8 "models", backend.text] (modelValue config.config)
  | .consent granted => growth [utf8 "search", utf8 "consent"] (.str (verdictText granted))

structure Ready (world : World) (update : Update) (root : Option Members) : Prop where
  whole : ∀ content ∈ world.file, Whole content
  current : root.getD [] = shown world.file
  writable : WritableFields (shown world.file)
  room : (written (.obj (shown world.file))).length + room update + 2 ≤ configMax

-- Where the file is replaced, it is absent or a whole object, the writer has read what it still holds, and there is
-- room for what is added.
def Good (world : World) : Event → Prop
  | .load _ _ _ => True
  | .save id calls => ∀ update root, world.held id = some (update, root) → calls.builds = true →
      calls.writesFile = true → Ready world update root

section Requests

variable {world : World} {event : Event} {update : Update} {root : Option Members} {fields : Members} {file : Option Bytes}

def settings : ReadModifyWrite.Store (Option Bytes) Members Update where
  view := shown
  next update fields := some (cstr (updateText update (some fields)))
  apply := apply

def heldRoot (pair : Update × Option Members) : Members :=
  pair.2.getD []

def requests (world : World) : ReadModifyWrite.World (Option Bytes) Members Update where
  content := world.file
  held := Option.map heldRoot ∘ world.held
  acked := world.acked

def move (world : World) : Event → ReadModifyWrite.Event Members Update
  | .load id request calls =>
    match admission request with
    | .ok _ => .take id ((configRoot calls world.file).getD [])
    | .error _ => .drop id
  | .save id calls =>
    match world.held id with
    | none => .idle
    | some (update, _) => if calls.builds && calls.writesFile then .replace id update else .drop id

theorem reply_acknowledges (update : Update) (written : Bool) : (reply update written).acknowledges = written := by
  cases update <;> cases written <;> rfl

theorem update_text_root (update : Update) (root : Option Members) :
    updateText update root = updateText update (some (root.getD [])) := by
  cases update <;> rfl

theorem requests_step (world : World) (event : Event) :
    requests (step world event) = ReadModifyWrite.step settings (requests world) (move world event) := by
  cases event with
  | load id request calls =>
    rw [step, move]
    cases admission request with
    | ok update => simp only [requests, ReadModifyWrite.step, Function.comp_update, Option.map_some, heldRoot]
    | error refusal => simp only [requests, ReadModifyWrite.step, Function.comp_update, Option.map_none]
  | save id calls =>
    rw [step, move]
    cases held : world.held id with
    | none => rfl
    | some pair =>
      obtain ⟨update, root⟩ := pair
      have holds : (requests world).held id = some (root.getD []) :=
        congrArg (Option.map heldRoot) held
      dsimp only
      rw [reply_acknowledges, update_text_root]
      cases builds : calls.builds with
      | false =>
        simp only [Bool.false_and, Bool.false_eq_true, if_false, ReadModifyWrite.step]
        simp only [requests, Function.comp_update, Option.map_none]
      | true =>
        rw [Bool.true_and, if_pos rfl]
        cases writes : calls.writesFile with
        | true =>
          rw [written_file writes]
          simp only [if_true, ReadModifyWrite.step, holds]
          simp only [requests, Function.comp_update, Option.map_none, settings]
        | false =>
          rw [unwritten_file writes]
          simp only [Bool.false_eq_true, if_false, ReadModifyWrite.step]
          simp only [requests, Function.comp_update, Option.map_none]

theorem update_text_eq (update : Update) (fields : Members) :
    updateText update (some fields) = written (.obj (apply fields update)) ++ [newline] := by
  cases update with
  | runtime backend config => exact runtime_text_eq (some fields) backend.text config.config
  | consent granted => exact consent_text_eq (some fields) granted

theorem apply_writable (update : Update) (writable : WritableFields fields) : WritableFields (apply fields update) := by
  cases update with
  | runtime backend config => exact saved_writable backend.string writable
  | consent granted => exact consented_writable granted writable

theorem apply_weight (fields : Members) (update : Update) : weight (apply fields update) ≤ weight fields + room update := by
  cases update with
  | runtime backend config =>
    have cpu := weight_assign [utf8 "runtime", utf8 "cpu_threads"] (specValue config.config.cpu) fields
    have model := weight_assign [utf8 "runtime", utf8 "models", backend.text] (modelValue config.config)
      (assign [utf8 "runtime", utf8 "cpu_threads"] (specValue config.config.cpu) fields)
    rw [apply, saved, room]
    omega
  | consent granted => exact weight_assign [utf8 "search", utf8 "consent"] (.str (verdictText granted)) fields

theorem apply_small (update : Update) (room_ : (written (.obj fields)).length + room update + 2 ≤ configMax) :
    (written (.obj (apply fields update)) ++ [newline]).length ≤ configMax := by
  have weight_ := apply_weight fields update
  have before := (written_length fields).1
  have after := (written_length (apply fields update)).2
  rw [List.length_append, List.length_singleton]
  omega

theorem text_without_end (update : Update) (fields : Members) :
    cstr (updateText update (some fields)) = written (.obj (apply fields update)) ++ [newline] := by
  rw [update_text_eq]
  apply cstr_self
  rw [List.mem_append]
  rintro (inside | inside)
  · exact visible_text (written_visible _) inside
  · exact absurd inside (by decide)

theorem root_saved (update : Update) (writable : WritableFields fields)
    (room_ : (written (.obj fields)).length + room update + 2 ≤ configMax) :
    configRoot calm (some (cstr (updateText update (some fields)))) = some (apply fields update) := by
  have whole := @read_whole calm configMax _ rfl (apply_small update room_)
  have read : parsed (written (.obj (apply fields update)) ++ [newline]) = some (.obj (apply fields update)) :=
    parse_object (apply_writable update writable) (by decide)
  rw [text_without_end, configRoot, whole, Option.bind_some, read]

theorem whole_saved (update : Update) (writable : WritableFields fields)
    (room_ : (written (.obj fields)).length + room update + 2 ≤ configMax) : Whole (cstr (updateText update (some fields))) := by
  rw [text_without_end]
  exact ⟨apply_small update room_, _, [newline], object_before (apply_writable update writable) (by decide), rfl⟩

theorem current_move (good : Good world event) : ReadModifyWrite.Current settings (requests world) (move world event) := by
  cases event with
  | load id request calls =>
    rw [move]
    cases admission request with
    | ok update => trivial
    | error refusal => trivial
  | save id calls =>
    rw [move]
    cases held : world.held id with
    | none => trivial
    | some pair =>
      obtain ⟨update, root⟩ := pair
      dsimp only
      cases works : calls.builds && calls.writesFile with
      | false => trivial
      | true =>
        obtain ⟨builds, writes⟩ := Bool.and_eq_true_iff.mp works
        have ready := good update root held builds writes
        intro seen holds
        have same : some (root.getD []) = some seen :=
          (congrArg (Option.map heldRoot) held).symm.trans holds
        cases same
        refine ⟨ready.current, ?_⟩
        simp only [settings, shown]
        rw [ready.current, root_saved update ready.writable ready.room]
        rfl

end Requests

section Places

variable {fields : Members} {update made : Update} {path : List Bytes}

theorem lookup_elsewhere (elsewhere : Elsewhere path update) :
    lookup path (.obj (apply fields update)) = lookup path (.obj fields) := by
  cases update with
  | runtime backend config =>
    rw [apply, saved, lookup_assign_apart _ _ _ _ (elsewhere _ (by simp [places])),
      lookup_assign_apart _ _ _ _ (elsewhere _ (by simp [places]))]
  | consent granted => exact lookup_assign_apart _ _ _ _ (elsewhere _ (by simp [places]))

theorem other_kind_elsewhere (different : sameKind made update = false) : ∀ place ∈ places made, Elsewhere place update := by
  intro place inside place' inside'
  have names : utf8 "runtime" ≠ utf8 "search" := by decide
  cases made with
  | runtime backend config =>
    cases update with
    | runtime backend' config' => cases different
    | consent granted =>
      simp only [places, List.mem_cons, List.not_mem_nil, or_false] at inside inside'
      rcases inside with rfl | rfl <;> subst inside' <;>
        simp [Apart, List.cons_prefix_cons, names, names.symm]
  | consent granted =>
    cases update with
    | consent granted' => cases different
    | runtime backend config =>
      simp only [places, List.mem_cons, List.not_mem_nil, or_false] at inside inside'
      subst inside
      rcases inside' with rfl | rfl <;> simp [Apart, List.cons_prefix_cons, names, names.symm]

end Places

section Runs

variable {world : World} {event : Event} {start : Option Bytes} {made : Update}

structure Inv (start : Option Bytes) (world : World) : Prop where
  serial : ReadModifyWrite.Serial settings (shown start) (requests world)
  unread : ∀ content, start = some content → ¬Whole content → world.file = start

theorem unread_step (unread : ∀ content, start = some content → ¬Whole content → world.file = start) (good : Good world event) :
    ∀ content, start = some content → ¬Whole content → (step world event).file = start := by
  intro content same broken
  have before := unread content same broken
  cases event with
  | load id request calls =>
    rw [step]
    cases admission request with
    | ok update => exact before
    | error refusal => exact before
  | save id calls =>
    rw [step]
    cases held : world.held id with
    | none => exact before
    | some pair =>
      obtain ⟨update, root⟩ := pair
      dsimp only
      cases builds : calls.builds with
      | false => exact before
      | true =>
        rw [if_pos rfl]
        cases writes : calls.writesFile with
        | false =>
          rw [unwritten_file writes]
          exact before
        | true =>
          have whole := (good update root held builds writes).whole content (by rw [before]; exact same)
          exact absurd whole broken

theorem inv_step (world : World) (event : Event) (inv : Inv start world) (good : Good world event) :
    Inv start (step world event) where
  serial := by
    rw [requests_step]
    exact ReadModifyWrite.serial_step inv.serial (current_move good)
  unread := unread_step inv.unread good

theorem load_shown (file : Option Bytes) (backend : Bytes) :
    runtimeConfigLoad (configRoot calm file) backend = runtimeConfigLoad (some (shown file)) backend := by
  rw [shown]
  cases configRoot calm file <;> rfl

theorem consent_shown (file : Option Bytes) : webConsentLoad (configRoot calm file) = webConsentLoad (some (shown file)) := by
  rw [shown]
  cases configRoot calm file <;> rfl

theorem saved_places (backend : Bytes) (config : RuntimeConfig) (fields : Members) :
    lookup [utf8 "runtime", utf8 "cpu_threads"] (.obj (saved backend config fields)) = some (specValue config.cpu) ∧
      lookup [utf8 "runtime", utf8 "models", backend] (.obj (saved backend config fields)) = some (modelValue config) := by
  have names : utf8 "models" ≠ utf8 "cpu_threads" := by decide
  refine ⟨?_, lookup_assign _ _ _ (by simp)⟩
  rw [saved, lookup_assign_apart _ _ _ _ ?_, lookup_assign _ _ _ (by simp)]
  constructor <;> simp [List.cons_prefix_cons, names, names.symm]

theorem reads_back {file : Option Bytes} {fields : Members}
    (same : ∀ place ∈ places made, lookup place (.obj (shown file)) = lookup place (.obj (apply fields made))) :
    ReadsBack file made := by
  cases made with
  | runtime backend config =>
    obtain ⟨cpu, model⟩ := saved_places backend.text config.config fields
    rw [ReadsBack, load_shown, runtime_load_eq, same _ (by simp [places]), same _ (by simp [places]), apply, cpu, model]
    exact read_saved config.valid
  | consent granted =>
    rw [ReadsBack, consent_shown, consent_load_eq, same _ (by simp [places]), apply, consented,
      lookup_assign _ _ _ (by simp)]
    cases granted <;> decide

theorem kept_of_inv (inv : Inv start world) : Kept start world := by
  have serial : shown world.file = world.acked.foldl apply (shown start) := inv.serial
  have untouched : ∀ path fields update, ¬¬Elsewhere path update →
      lookup path (.obj (apply fields update)) = lookup path (.obj fields) :=
    fun path fields update elsewhere => lookup_elsewhere (not_not.mp elsewhere)
  have unlost : ∀ before made after path, world.acked = before ++ made :: after →
      (∀ later ∈ after, Elsewhere path later) → lookup path (.obj (shown world.file)) =
        lookup path (.obj (apply (before.foldl apply (shown start)) made)) := by
    intro before made after path acked elsewhere
    rw [serial, acked]
    exact ReadModifyWrite.last_touch (fun fields => lookup path (.obj fields)) (untouched path) (shown start) before after made fun later inside =>
      not_not.mpr (elsewhere later inside)
  refine ⟨serial, ?_, unlost, ?_, inv.unread⟩
  · intro path elsewhere
    rw [serial]
    exact ReadModifyWrite.untouched_kept (fun fields => lookup path (.obj fields)) (untouched path) (shown start) world.acked fun later inside =>
      not_not.mpr (elsewhere later inside)
  · intro before made after acked different
    apply reads_back
    intro place inside
    exact unlost before made after place acked fun later inside' => other_kind_elsewhere (different later inside') place inside

theorem refused_unchanged (world : World) (event : Event) (refused : (step world event).acked = world.acked) :
    (step world event).file = world.file := by
  cases event with
  | load id request calls =>
    rw [step]
    cases admission request with
    | ok update => rfl
    | error refusal => rfl
  | save id calls =>
    rw [step] at refused ⊢
    cases held : world.held id with
    | none => rfl
    | some pair =>
      rw [held] at refused
      obtain ⟨update, root⟩ := pair
      dsimp only at refused ⊢
      rw [reply_acknowledges] at refused
      cases builds : calls.builds with
      | false => rfl
      | true =>
        rw [builds, if_pos rfl] at refused
        rw [if_pos rfl]
        cases writes : calls.writesFile with
        | false => rw [unwritten_file writes]
        | true =>
          rw [written_file writes, if_pos rfl] at refused
          exact absurd refused (by simp)

end Runs

-- A writer that is not acknowledged leaves the file as it is. Where every writer that replaces it has read all of what
-- it still holds, the file holds what the acknowledged writers have set and everything else that it held.
theorem settings_kept (world : World) (events : List Event) :
    (∀ event, (step world event).acked = world.acked → (step world event).file = world.file) ∧
      (world.acked = [] → Along step Good world events → Kept world.file (events.foldl step world)) := by
  refine ⟨fun event => refused_unchanged world event, fun fresh good => ?_⟩
  apply kept_of_inv
  apply along_invariant inv_step _ events good
  refine ⟨?_, fun _ _ _ => rfl⟩
  change shown world.file = world.acked.foldl apply (shown world.file)
  rw [fresh]
  rfl

section Races

def newWorld (file : Option Bytes) : World where
  file := file
  held := fun _ => none
  acked := []
  answers := []

def qwen : Backend where
  text := utf8 "qwen"
  string := literal_text (by decide)

def fourThreads : Checked where
  config := { runtimeConfigDefaults with cpu := .count 4 }
  valid := ⟨fun number same => by cases same; decide, fun number same => (by cases same), by decide⟩

def grant : Request :=
  .consent (utf8 "\x7b\"granted\":true\x7d")

def racing : List Event :=
  [.load 0 (.runtime qwen fourThreads) calm, .load 1 grant calm, .save 0 calm, .save 1 calm]

def apart : List Event :=
  [.load 0 (.runtime qwen fourThreads) calm, .save 0 calm, .load 1 grant calm, .save 1 calm]

theorem racing_file : (racing.foldl step (newWorld none)).file = some (cstr (updateText (.consent true) (some []))) := by
  decide +kernel

theorem racing_acked : (racing.foldl step (newWorld none)).acked = [.runtime qwen fourThreads, .consent true] := by
  decide +kernel

theorem consent_room : (written (.obj [])).length + room (.consent true) + 2 ≤ configMax := by
  decide

theorem runtime_room : (written (.obj [])).length + room (.runtime qwen fourThreads) + 2 ≤ configMax := by
  decide +kernel

-- The threads that the first writer has saved are not in the file that the second one writes.
theorem setting_lost : ¬∀ world events, world.acked = [] → Kept world.file (List.foldl step world events) := by
  intro all
  have back := (all (newWorld none) racing rfl).readBack [] (.runtime qwen fourThreads) [.consent true] racing_acked
    (by decide)
  have empty : WritableFields [] := trivial
  rw [racing_file, ReadsBack, root_saved (.consent true) empty consent_room] at back
  exact absurd (congrArg RuntimeConfig.cpu back) (by decide)

theorem loaded_world {world : World} {id : Nat} {request : Request} {update : Update} (calls : EventCalls)
    (admitted : admission request = .ok update) :
    (step world (.load id request calls)).held id = some (update, configRoot calls world.file) ∧
      (step world (.load id request calls)).file = world.file := by
  rw [step, admitted]
  exact ⟨Function.update_self _ _ _, rfl⟩

theorem good_save {world : World} {id : Nat} {request : Request} {update : Update} (admitted : admission request = .ok update)
    (whole : ∀ content ∈ world.file, Whole content) (writable : WritableFields (shown world.file))
    (room_ : (written (.obj (shown world.file))).length + room update + 2 ≤ configMax) :
    Good (step world (.load id request calm)) (.save id calm) := by
  obtain ⟨held, file⟩ := loaded_world calm admitted
  intro update' root' held' _ _
  rw [held, Option.some.injEq, Prod.mk.injEq] at held'
  obtain ⟨rfl, rfl⟩ := held'
  exact ⟨file ▸ whole, congrArg shown file.symm, file ▸ writable, file ▸ room_⟩

theorem grant_admitted : admission grant = .ok (.consent true) := by
  have admitted : (admission grant).toOption = some (.consent true) := by decide +kernel
  cases request : admission grant with
  | ok update =>
    rw [request] at admitted
    exact congrArg Except.ok (Option.some.inj admitted)
  | error refusal =>
    rw [request] at admitted
    cases admitted

theorem apart_good : Along step Good (newWorld none) apart := by
  have empty : WritableFields [] := trivial
  have file : (step (step (newWorld none) (.load 0 (.runtime qwen fourThreads) calm)) (.save 0 calm)).file =
      some (cstr (updateText (.runtime qwen fourThreads) (some []))) := by decide
  have root : shown (some (cstr (updateText (.runtime qwen fourThreads) (some [])))) =
      apply [] (.runtime qwen fourThreads) := by
    rw [shown, root_saved (.runtime qwen fourThreads) empty runtime_room]
    rfl
  have none_ : shown (newWorld none).file = [] := rfl
  refine ⟨trivial, good_save rfl (fun _ inside => by cases inside) ?_ ?_, trivial, good_save grant_admitted ?_ ?_ ?_, trivial⟩
  · rw [none_]
    exact empty
  · rw [none_]
    exact runtime_room
  · rw [file]
    intro content inside
    cases inside
    exact whole_saved (.runtime qwen fourThreads) empty runtime_room
  · rw [file, root]
    exact apply_writable _ empty
  · rw [file, root]
    decide +kernel

theorem settings_kept_apart : Kept none (apart.foldl step (newWorld none)) :=
  (settings_kept (newWorld none) apart).2 rfl apart_good

end Races

end SamosaChat.Settings
