import SamosaChat.Setup.Profile
import SamosaChat.Lib.ReadModifyWrite

set_option autoImplicit false

namespace SamosaChat.Setup

open Utf8 Text Json Buffers Durable Runs

structure World where
  file : Option Bytes
  held : Nat → Option (Update × Option Profile)
  acked : List (Update × Stamp)
  answers : List (Nat × Reply)

inductive Event
  | load (id : Nat) (request : Request) (calls : EventCalls)
  | save (id : Nat) (now : Stamp) (calls : EventCalls)

def step (world : World) : Event → World
  | .load id request calls =>
    let loaded := profileLoad calls world.file
    match admission request loaded with
    | .ok update => { world with held := Function.update world.held id (some (update, loaded)) }
    | .error refusal =>
      { world with
        held := Function.update world.held id none
        answers := world.answers ++ [(id, refusal)] }
  | .save id now calls =>
    match world.held id with
    | none => world
    | some (update, loaded) =>
      let p := updated update now loaded
      let (saved, file) := profileSave calls p world.file
      let answer := reply update saved p
      { file := file
        held := Function.update world.held id none
        acked := if answer.acknowledges then world.acked ++ [(update, now)] else world.acked
        answers := world.answers ++ [(id, answer)] }

def shown (file : Option Bytes) : Option Profile :=
  profileLoad calm file

inductive Field
  | name
  | welcomeCompletedAt
  | selectedModelId
  | selectedModelVersion
  | createdAt
  | updatedAt
deriving DecidableEq

def value (field : Field) (stored : Option Profile) : Bytes :=
  let p := stored.getD noProfile
  match field with
  | .name => p.name.text
  | .welcomeCompletedAt => p.welcomeCompletedAt.text
  | .selectedModelId => p.selectedModelId.text
  | .selectedModelVersion => p.selectedModelVersion.text
  | .createdAt => p.createdAt.text
  | .updatedAt => p.updatedAt.text

def touched : Update → List Field
  | .put _ => [.name, .createdAt, .updatedAt]
  | .selection _ _ => [.selectedModelId, .selectedModelVersion, .createdAt, .updatedAt]
  | .welcome => [.welcomeCompletedAt, .updatedAt]

def apply (stored : Option Profile) (made : Update × Stamp) : Option Profile :=
  some (updated made.1 made.2 stored)

def Sent (update : Update) (stored : Option Profile) : Field → Prop
  | .name => ∀ name, update = .put name → value .name stored = name.text
  | .selectedModelId => ∀ modelId version, update = .selection modelId version → value .selectedModelId stored = modelId
  | .selectedModelVersion => ∀ modelId c rest, update = .selection modelId (some (c :: rest)) →
      value .selectedModelVersion stored = c :: rest
  | _ => True

structure Kept (start : Option Profile) (world : World) : Prop where
  serial : shown world.file = world.acked.foldl apply start
  unreverted : ∀ before made after field, world.acked = before ++ made :: after →
    (∀ later ∈ after, field ∉ touched later.1) →
      value field (shown world.file) = value field (apply (before.foldl apply start) made) ∧
        Sent made.1 (shown world.file) field

def Fits : Update → Prop
  | .selection modelId version => (StringText modelId ∧ modelId.length < 64) ∧
      ∀ text ∈ version, StringText text ∧ text.length < 128
  | _ => True

structure Ready (world : World) (update : Update) (loaded : Option Profile) : Prop where
  current : loaded = shown world.file
  clean : ∀ p ∈ loaded, Clean p
  fits : Fits update

def Good (world : World) : Event → Prop
  | .load _ _ _ => True
  | .save id _ calls => ∀ update loaded, world.held id = some (update, loaded) →
      calls.writesFile = true → Ready world update loaded

section Requests

variable {world : World} {event : Event} {start loaded : Option Profile} {update : Update} {now : Stamp}

def profiles : ReadModifyWrite.Store (Option Bytes) (Option Profile) (Update × Stamp) where
  view := shown
  next made loaded := some (cstr (profileText (updated made.1 made.2 loaded)))
  apply := apply

def requests (world : World) : ReadModifyWrite.World (Option Bytes) (Option Profile) (Update × Stamp) where
  content := world.file
  held := Option.map Prod.snd ∘ world.held
  acked := world.acked

def move (world : World) : Event → ReadModifyWrite.Event (Option Profile) (Update × Stamp)
  | .load id request calls =>
    match admission request (profileLoad calls world.file) with
    | .ok _ => .take id (profileLoad calls world.file)
    | .error _ => .drop id
  | .save id now calls =>
    match world.held id with
    | none => .idle
    | some (update, _) => if calls.writesFile then .replace id (update, now) else .drop id

theorem reply_acknowledges (update : Update) (saved : Bool) (p : Profile) : (reply update saved p).acknowledges = saved := by
  cases update <;> cases saved <;> rfl

theorem requests_step (world : World) (event : Event) :
    requests (step world event) = ReadModifyWrite.step profiles (requests world) (move world event) := by
  cases event with
  | load id request calls =>
    rw [step, move]
    cases admission request (profileLoad calls world.file) with
    | ok update => simp only [requests, ReadModifyWrite.step, Function.comp_update, Option.map_some]
    | error refusal => simp only [requests, ReadModifyWrite.step, Function.comp_update, Option.map_none]
  | save id now calls =>
    rw [step, move]
    cases held : world.held id with
    | none => rfl
    | some pair =>
      obtain ⟨update, loaded⟩ := pair
      have holds : (requests world).held id = some loaded := congrArg (Option.map Prod.snd) held
      dsimp only
      rw [reply_acknowledges, profileSave]
      cases writes : calls.writesFile with
      | true =>
        rw [written_file writes]
        simp only [if_true, ReadModifyWrite.step, holds]
        simp only [requests, Function.comp_update, Option.map_none, profiles]
      | false =>
        rw [unwritten_file writes]
        simp only [Bool.false_eq_true, if_false, ReadModifyWrite.step]
        simp only [requests, Function.comp_update, Option.map_none]

theorem empty_text (cap : Nat) [NeZero cap] : StringText (empty cap).text :=
  ⟨valid_nil, List.not_mem_nil⟩

theorem loaded_clean (clean : ∀ p ∈ loaded, Clean p) : Clean (loaded.getD noProfile) := by
  cases loaded with
  | none => exact ⟨empty_text 257, empty_text 32, empty_text 64, empty_text 128, empty_text 32, empty_text 32⟩
  | some p => exact clean p rfl

theorem either_text {cap : Nat} (c : Prop) [Decidable c] {buffer buffer' : Buffer cap} (left : StringText buffer.text)
    (right : StringText buffer'.text) : StringText (if c then buffer else buffer').text := by
  split
  · exact left
  · exact right

theorem updated_clean (fits : Fits update) (clean : ∀ p ∈ loaded, Clean p) : Clean (updated update now loaded) := by
  obtain ⟨name, welcome, modelId, version, created, _⟩ := loaded_clean clean
  cases update with
  | put given =>
    refine ⟨?_, welcome, modelId, version, either_text _ created now.string, now.string⟩
    exact (path_copy_text given.short).symm ▸ given.string
  | selection given versionGiven =>
    obtain ⟨⟨string, short⟩, versions⟩ := fits
    refine ⟨name, welcome, ?_, ?_, either_text _ now.string created, now.string⟩
    · exact (path_copy_text short).symm ▸ string
    · simp only [updated, profileSetSelection]
      split
      · rw [path_copy_text (versions _ rfl).2]
        exact (versions _ rfl).1
      · exact either_text _ version (empty_text 128)
  | welcome => exact ⟨name, either_text _ now.string welcome, modelId, version, created, now.string⟩

theorem shown_saved {p : Profile} (clean : Clean p) : shown (some (cstr (profileText p))) = some p := by
  have text : cstr (profileText p) = profileText p := by
    apply cstr_self
    rw [profileText, profile_body_eq, List.mem_append]
    rintro (inside | inside)
    · exact visible_text (written_visible _) inside
    · exact absurd inside (by decide)
  have whole : readFileLimit calm profileMax (some (profileText p)) = some (profileText p) :=
    read_whole rfl (profile_text_small p)
  rw [text, shown, profileLoad, whole, Option.bind_some, read_profile_text clean]

theorem current_move (good : Good world event) : ReadModifyWrite.Current profiles (requests world) (move world event) := by
  cases event with
  | load id request calls =>
    rw [move]
    cases admission request (profileLoad calls world.file) with
    | ok update => trivial
    | error refusal => trivial
  | save id now calls =>
    rw [move]
    cases held : world.held id with
    | none => trivial
    | some pair =>
      obtain ⟨update, loaded⟩ := pair
      dsimp only
      cases writes : calls.writesFile with
      | false => trivial
      | true =>
        intro seen holds
        have same : some loaded = some seen := (congrArg (Option.map Prod.snd) held).symm.trans holds
        cases same
        obtain ⟨current, clean, fits⟩ := good update loaded held writes
        refine ⟨current, ?_⟩
        simp only [profiles, apply]
        exact shown_saved (updated_clean fits clean)

end Requests

section Fields

variable {stored : Option Profile} {made : Update × Stamp} {field : Field}

theorem untouched_value (none_ : field ∉ touched made.1) : value field (apply stored made) = value field stored := by
  obtain ⟨update, now⟩ := made
  cases update <;> cases field <;> first | rfl | exact absurd (by simp [touched]) none_

theorem sent_value (fits : Fits made.1) : Sent made.1 (apply stored made) field := by
  obtain ⟨update, now⟩ := made
  cases field with
  | name =>
    rintro name rfl
    exact path_copy_text name.short
  | selectedModelId =>
    rintro modelId version rfl
    exact path_copy_text fits.1.2
  | selectedModelVersion =>
    rintro modelId c rest rfl
    exact path_copy_text (fits.2 _ rfl).2
  | _ => trivial

end Fields

section Runs

variable {world : World} {event : Event} {start : Option Profile}

structure Inv (start : Option Profile) (world : World) : Prop where
  serial : ReadModifyWrite.Serial profiles start (requests world)
  fits : ∀ made ∈ world.acked, Fits made.1

theorem fits_step (fits : ∀ made ∈ world.acked, Fits made.1) (good : Good world event) :
    ∀ made ∈ (step world event).acked, Fits made.1 := by
  cases event with
  | load id request calls =>
    rw [step]
    cases admission request (profileLoad calls world.file) with
    | ok update => exact fits
    | error refusal => exact fits
  | save id now calls =>
    rw [step]
    cases held : world.held id with
    | none => exact fits
    | some pair =>
      obtain ⟨update, loaded⟩ := pair
      dsimp only
      rw [reply_acknowledges, profileSave]
      cases writes : calls.writesFile with
      | false =>
        rw [unwritten_file writes]
        exact fits
      | true =>
        rw [written_file writes, if_pos rfl]
        intro made inside
        rcases List.mem_append.mp inside with old | new
        · exact fits made old
        · rw [List.mem_singleton.mp new]
          exact (good update loaded held writes).fits

theorem inv_step (world : World) (event : Event) (inv : Inv start world) (good : Good world event) :
    Inv start (step world event) where
  serial := by
    rw [requests_step]
    exact ReadModifyWrite.serial_step inv.serial (current_move good)
  fits := fits_step inv.fits good

theorem kept_of_inv (inv : Inv start world) : Kept start world where
  serial := inv.serial
  unreverted := by
    intro before made after field acked none_
    have fits : Fits made.1 := inv.fits made (by rw [acked]; simp)
    have last : value field (shown world.file) = value field (apply (before.foldl apply start) made) := by
      have serial : shown world.file = world.acked.foldl apply start := inv.serial
      have untouched : ∀ stored made, ¬(field ∈ touched made.1) → value field (apply stored made) = value field stored :=
        fun _ _ => untouched_value
      rw [serial, acked]
      exact ReadModifyWrite.last_touch (value field) untouched start before after made none_
    refine ⟨last, ?_⟩
    have sent : Sent made.1 (apply (before.foldl apply start) made) field := sent_value fits
    cases field <;> first | trivial | (rw [Sent, last]; exact sent)

theorem failed_unchanged (world : World) (event : Event) (refused : (step world event).acked = world.acked) :
    (step world event).file = world.file := by
  cases event with
  | load id request calls =>
    rw [step]
    cases admission request (profileLoad calls world.file) with
    | ok update => rfl
    | error refusal => rfl
  | save id now calls =>
    rw [step] at refused ⊢
    cases held : world.held id with
    | none => rfl
    | some pair =>
      rw [held] at refused
      obtain ⟨update, loaded⟩ := pair
      dsimp only at refused ⊢
      rw [reply_acknowledges, profileSave] at refused
      rw [profileSave]
      cases writes : calls.writesFile with
      | false => rw [unwritten_file writes]
      | true =>
        rw [written_file writes, if_pos rfl] at refused
        exact absurd refused (by simp)

end Runs

-- A request that is not acknowledged leaves the profile as it is. Where every profile that is written over the file
-- was worked out from what the file still shows, the stored profile is that of the acknowledged updates one after the
-- other, and what one of them has set stands until another one is about the same field.
theorem profile_updates_kept (world : World) (events : List Event) :
    (∀ event, (step world event).acked = world.acked → (step world event).file = world.file) ∧
      (world.acked = [] → Along step Good world events → Kept (shown world.file) (events.foldl step world)) := by
  refine ⟨fun event => failed_unchanged world event, fun fresh good => ?_⟩
  apply kept_of_inv
  apply along_invariant inv_step _ events good
  refine ⟨?_, ?_⟩
  · change shown world.file = world.acked.foldl apply (shown world.file)
    rw [fresh]
    rfl
  · rw [fresh]
    exact fun made inside => absurd inside List.not_mem_nil

section Races

def newWorld : World where
  file := none
  held := fun _ => none
  acked := []
  answers := []

def putAda : Request :=
  .put (utf8 "\x7b\"name\":\" Ada \"\x7d")

def chooseQwen : Request :=
  .selection (utf8 "qwen") none

def racing : List Event :=
  [.load 0 putAda calm, .load 1 chooseQwen calm, .save 0 morning calm, .save 1 morning calm]

def apart : List Event :=
  [.load 0 putAda calm, .save 0 morning calm, .load 1 chooseQwen calm, .save 1 morning calm]

theorem racing_file : (racing.foldl step newWorld).file =
    some (cstr (profileText (updated (.selection (utf8 "qwen") none) morning none))) := by
  decide +kernel

theorem qwen_fits : Fits (.selection (utf8 "qwen") none) :=
  ⟨⟨literal_text (by decide), by decide⟩, fun _ inside => by cases inside⟩

theorem racing_shown : shown (racing.foldl step newWorld).file =
    some (updated (.selection (utf8 "qwen") none) morning none) := by
  rw [racing_file]
  exact shown_saved (updated_clean qwen_fits fun _ inside => by cases inside)

def ada : Name where
  text := utf8 "Ada"
  string := literal_text (by decide)
  some_ := by decide
  short := by decide

theorem good_save {world : World} {id : Nat} {update : Update} {loaded : Option Profile} (now : Stamp) (calls : EventCalls)
    (held : world.held id = some (update, loaded)) (ready : Ready world update loaded) : Good world (.save id now calls) := by
  intro update' loaded' held' _
  rw [held, Option.some.injEq, Prod.mk.injEq] at held'
  obtain ⟨rfl, rfl⟩ := held'
  exact ready

theorem apart_good : Along step Good newWorld apart := by
  have clean : Clean (updated (.put ada) morning none) := updated_clean trivial fun _ inside => by cases inside
  have first : (step newWorld (.load 0 putAda calm)).held 0 = some (.put ada, none) := by decide +kernel
  have none_ : (step newWorld (.load 0 putAda calm)).file = none := by decide +kernel
  have second : (step (step (step newWorld (.load 0 putAda calm)) (.save 0 morning calm)) (.load 1 chooseQwen calm)).held 1 =
      some (.selection (utf8 "qwen") none, some (updated (.put ada) morning none)) := by decide +kernel
  have file : (step (step (step newWorld (.load 0 putAda calm)) (.save 0 morning calm)) (.load 1 chooseQwen calm)).file =
      some (cstr (profileText (updated (.put ada) morning none))) := by decide +kernel
  refine ⟨trivial, good_save morning calm first ⟨?_, ?_, trivial⟩, trivial, good_save morning calm second ⟨?_, ?_, qwen_fits⟩,
    trivial⟩
  · rw [none_]
    rfl
  · exact fun _ inside => by cases inside
  · rw [file, shown_saved clean]
  · intro p inside
    rw [← Option.mem_some.mp inside]
    exact clean

-- The name that the first request has saved is not in the profile that the second one saves.
theorem profile_update_lost : ¬∀ world events, world.acked = [] → Kept (shown world.file) (List.foldl step world events) := by
  intro all
  have serial := (all newWorld racing rfl).serial
  rw [racing_shown] at serial
  have names := congrArg (value .name) serial
  exact absurd names (by decide +kernel)

theorem profile_updates_kept_apart : Kept none (apart.foldl step newWorld) :=
  (profile_updates_kept newWorld apart).2 rfl apart_good

end Races

end SamosaChat.Setup
