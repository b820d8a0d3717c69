import SamosaChat.Durable.SmallFile
import SamosaChat.Lib.Scanf

set_option autoImplicit false

namespace SamosaChat.Jobs

open Utf8 Text Decimal Json Binary64 Durable

def systemPathMax : Nat := 4096

structure Paths where
  realpath : Bytes → Option Bytes
  regular : Bytes → Bool

def joinPath (folder relative : Bytes) : Bytes :=
  folder ++ utf8 "/" ++ relative

def safeJobPath (paths : Paths) (folder relative : Bytes) : Option Bytes :=
  if relative = [] ∨ relative.head? = some 0x2f then none
  else
    match paths.realpath folder with
    | none => none
    | some root =>
      if (joinPath root relative).length ≥ systemPathMax then none
      else
        match paths.realpath (joinPath root relative) with
        | none => none
        | some resolved =>
          if ¬ root <+: resolved then none
          else if ((resolved.drop root.length).head?.any (· ≠ 0x2f)) = true then none
          else if !paths.regular (joinPath root relative) then none
          else if resolved.length ≥ systemPathMax then none
          else some resolved

def Inside (paths : Paths) (folder relative : Bytes) : Prop :=
  ∃ root resolved, paths.realpath folder = some root ∧ paths.realpath (joinPath root relative) = some resolved ∧
    (resolved = root ∨ root ++ utf8 "/" <+: resolved)

structure SkimRow where
  path : Bytes
  parked : Bool
deriving DecidableEq

def skimRow (line : Bytes) : Option SkimRow :=
  match parsed line with
  | some row =>
    match jsonGet row (utf8 "path") with
    | some (.str path) =>
      some ⟨path, match jsonGet row (utf8 "parked") with
        | some (.bool boolean) => boolean
        | _ => false⟩
    | _ => none
  | none => none

def skimRows (raw : Bytes) : List SkimRow :=
  ((lines (cstr raw)).filter (· ≠ [])).filterMap skimRow

structure FinishCall where
  paths : Paths
  folder : Bytes
  jobId : Bytes
  args : List (Bytes × Jval)
  skim : Option Bytes
  reads : EventCalls
  writes : EventCalls
  result : Option Bytes

structure FinishResult where
  matches_ : List Jval
  rejectedCount : Nat
  unreadable : List Jval
  deferred : List Jval
  notes : Option Bytes

def keysIn (allowed : List String) (fields : List (Bytes × Jval)) : Bool :=
  fields.all fun (key, _) => allowed.any fun word => utf8 word == key

def pathIn (paths : Paths) (folder : Bytes) : Option Jval → Bool
  | some (.str path) => (safeJobPath paths folder path).isSome
  | _ => false

def someText : Option Jval → Bool
  | some (.str text) => text ≠ []
  | _ => false

def wordIn (allowed : List String) : Option Jval → Bool
  | some (.str text) => allowed.any fun word => utf8 word == text
  | _ => false

def countFrom (least : Nat) : Option Jval → Option Nat
  | some (.num num) => (natural num).filter fun n => least ≤ n && n < 2 ^ 31
  | _ => none

def absentOr (check : Option Jval → Bool) : Option Jval → Bool
  | none => true
  | some value => check (some value)

def matchFormed (paths : Paths) (folder : Bytes) : Jval → Bool
  | .obj fields =>
    let entry := Jval.obj fields
    keysIn ["path", "evidence", "page", "confidence"] fields && pathIn paths folder (jsonGet entry (utf8 "path")) &&
      someText (jsonGet entry (utf8 "evidence")) &&
      absentOr (fun page => (countFrom 1 page).isSome) (jsonGet entry (utf8 "page")) &&
      absentOr (wordIn ["high", "medium"]) (jsonGet entry (utf8 "confidence"))
  | _ => false

def unreadableFormed (paths : Paths) (folder : Bytes) : Jval → Bool
  | .obj fields =>
    let entry := Jval.obj fields
    fields.length == 2 && pathIn paths folder (jsonGet entry (utf8 "path")) && someText (jsonGet entry (utf8 "reason"))
  | _ => false

def deferredFormed (paths : Paths) (folder : Bytes) : Jval → Bool
  | .obj fields =>
    let entry := Jval.obj fields
    fields.length == 2 && pathIn paths folder (jsonGet entry (utf8 "path")) &&
      wordIn ["high", "medium", "low"] (jsonGet entry (utf8 "confidence"))
  | _ => false

def listOf : Option Jval → Option (List Jval)
  | none => some []
  | some (.arr kids) => some kids
  | _ => none

def pathOf (entry : Jval) : Option Bytes :=
  match jsonGet entry (utf8 "path") with
  | some (.str path) => some path
  | _ => none

def parkedListed (rows : List SkimRow) (unreadable : List Jval) : Bool :=
  rows.all fun row => !row.parked || unreadable.any fun entry => pathOf entry == some row.path

def handleFinish (call : FinishCall) : Option FinishResult :=
  let args := Jval.obj call.args
  if keysIn ["matches", "rejected_count", "unreadable", "deferred", "notes"] call.args = false then none
  else
    match jsonGet args (utf8 "matches") with
    | some (.arr matches_) =>
      if matches_.all (matchFormed call.paths call.folder) = false then none
      else
        match listOf (jsonGet args (utf8 "unreadable")) with
        | none => none
        | some unreadable =>
          if unreadable.all (unreadableFormed call.paths call.folder) = false then none
          else if (readFileLimit call.reads (32 <<< 20) call.skim).any
              (fun raw => !parkedListed (skimRows raw) unreadable) = true then none
          else
            match listOf (jsonGet args (utf8 "deferred")) with
            | none => none
            | some deferred =>
              if deferred.all (deferredFormed call.paths call.folder) = false then none
              else
                let count := jsonGet args (utf8 "rejected_count")
                if absentOr (fun count => (countFrom 0 count).isSome) count = false then none
                else
                  match jsonGet args (utf8 "notes") with
                  | none => some ⟨matches_, (countFrom 0 count).getD 0, unreadable, deferred, none⟩
                  | some (.str notes) =>
                    some ⟨matches_, (countFrom 0 count).getD 0, unreadable, deferred, some notes⟩
                  | some _ => none
    | _ => none

def finishFields (jobId : Bytes) (said : FinishResult) : Option Bytes := do
  let out ← textJsonString (utf8 "\"job_id\":") jobId
  let out ← textJsonValue (out ++ utf8 ",\"matches\":") (.arr said.matches_)
  let out := out ++ utf8 ",\"rejected_count\":" ++ decimalInt said.rejectedCount
  let out ← textJsonValue (out ++ utf8 ",\"unreadable\":") (.arr said.unreadable)
  let out ← textJsonValue (out ++ utf8 ",\"deferred\":") (.arr said.deferred)
  textJsonString (out ++ utf8 ",\"notes\":") (said.notes.getD [])

def finish (call : FinishCall) : Option FinishResult × Option Bytes :=
  match handleFinish call with
  | none => (none, call.result)
  | some said =>
    match finishFields call.jobId said with
    | none => (none, call.result)
    | some fields =>
      (some said, (writeSmallFile call.writes (utf8 "\x7b" ++ fields ++ utf8 "\x7d\n") call.result).2)

def pathsOf (entries : List Jval) : List Bytes :=
  entries.filterMap pathOf

def recordedPaths (said : FinishResult) : List Bytes :=
  pathsOf said.matches_ ++ pathsOf said.unreadable ++ pathsOf said.deferred

def Apart (said : FinishResult) : Prop :=
  (∀ path ∈ pathsOf said.matches_, path ∉ pathsOf said.unreadable ∧ path ∉ pathsOf said.deferred) ∧
    ∀ path ∈ pathsOf said.unreadable, path ∉ pathsOf said.deferred

def skimmed (call : FinishCall) : List SkimRow :=
  (call.skim.map skimRows).getD []

def AddsUp (call : FinishCall) (said : FinishResult) : Prop :=
  said.matches_.length + said.rejectedCount + said.unreadable.length + said.deferred.length =
    ((skimmed call).map SkimRow.path).dedup.length

def ParkedListed (call : FinishCall) (said : FinishResult) : Prop :=
  ∀ row ∈ skimmed call, row.parked = true → row.path ∈ pathsOf said.unreadable

def Accounts (call : FinishCall) : Prop :=
  match finish call with
  | (none, result) => result = call.result
  | (some said, _) =>
    (∀ path ∈ recordedPaths said, Inside call.paths call.folder path) ∧ ParkedListed call said ∧ Apart said ∧
      AddsUp call said

structure Formed (call : FinishCall) (said : FinishResult) : Prop where
  keys : keysIn ["matches", "rejected_count", "unreadable", "deferred", "notes"] call.args = true
  matches_ : jsonGet (.obj call.args) (utf8 "matches") = some (.arr said.matches_)
  matched : said.matches_.all (matchFormed call.paths call.folder) = true
  unreadable : listOf (jsonGet (.obj call.args) (utf8 "unreadable")) = some said.unreadable
  unread : said.unreadable.all (unreadableFormed call.paths call.folder) = true
  deferred : listOf (jsonGet (.obj call.args) (utf8 "deferred")) = some said.deferred
  later : said.deferred.all (deferredFormed call.paths call.folder) = true
  counted : absentOr (fun count => (countFrom 0 count).isSome) (jsonGet (.obj call.args) (utf8 "rejected_count")) = true
  count : said.rejectedCount = (countFrom 0 (jsonGet (.obj call.args) (utf8 "rejected_count"))).getD 0
  notes : jsonGet (.obj call.args) (utf8 "notes") = said.notes.map .str

def readSkim (call : FinishCall) : Option Bytes :=
  readFileLimit call.reads (32 <<< 20) call.skim

def InOrder (call : FinishCall) : Prop :=
  ∀ said, Formed call said → (readSkim call).all (fun raw => parkedListed (skimRows raw) said.unreadable) = true →
    Apart said ∧ AddsUp call said ∧ (readSkim call = none → ParkedListed call said)

variable {folder : Bytes} {paths : Paths}

section Finish

variable {call : FinishCall} {said : FinishResult}

theorem any_not_all {α : Type} (o : Option α) (p : α → Bool) : o.any (fun a => !p a) = true ↔ ¬ o.all p = true := by
  cases o <;> simp

theorem handle_finish_iff : handleFinish call = some said ↔
    Formed call said ∧ (readSkim call).all (fun raw => parkedListed (skimRows raw) said.unreadable) = true := by
  constructor
  · intro accepted
    rw [handleFinish] at accepted
    dsimp only at accepted
    -- Every check stands before what it guards.
    obtain ⟨keys, accepted⟩ := past_guard accepted nofun
    split at accepted
    case h_2 => cases accepted
    rename_i matches_ arr
    obtain ⟨matched, accepted⟩ := past_guard accepted nofun
    split at accepted
    case h_1 => cases accepted
    rename_i unreadable unread
    by_cases each : unreadable.all (unreadableFormed call.paths call.folder) = false
    · rw [if_pos each] at accepted
      cases accepted
    rw [if_neg each, ← readSkim] at accepted
    obtain ⟨parked, accepted⟩ := past_guard accepted nofun
    split at accepted
    case h_1 => cases accepted
    rename_i deferred later
    obtain ⟨eachLater, accepted⟩ := past_guard accepted nofun
    obtain ⟨counted, accepted⟩ := past_guard accepted nofun
    rw [any_not_all, not_not] at parked
    rw [Bool.not_eq_false] at keys matched each eachLater counted
    split at accepted
    case h_3 => cases accepted
    all_goals
      rename_i notes
      cases accepted
      exact ⟨⟨keys, arr, matched, unread, each, later, eachLater, counted, rfl, notes⟩, parked⟩
  · rintro ⟨formed, listed⟩
    have parked : ¬ (readSkim call).any (fun raw => !parkedListed (skimRows raw) said.unreadable) = true := by
      rw [any_not_all, not_not]
      exact listed
    rw [readSkim] at parked
    rw [handleFinish]
    dsimp only
    rw [if_neg (by rw [formed.keys]; decide), formed.matches_]
    dsimp only
    rw [if_neg (by rw [formed.matched]; decide), formed.unreadable]
    dsimp only
    rw [if_neg (by rw [formed.unread]; decide), if_neg parked, formed.deferred]
    dsimp only
    rw [if_neg (by rw [formed.later]; decide), if_neg (by rw [formed.counted]; decide), formed.notes, ← formed.count]
    cases said with
    | mk matches_ rejectedCount unreadable deferred notes => cases notes <;> rfl

theorem finish_fields_some (jobId : Bytes) (said : FinishResult) : ∃ fields, finishFields jobId said = some fields := by
  simp [finishFields, text_json_string_eq, text_json_value_eq]

theorem safe_job_path_inside {relative resolved : Bytes}
    (safe : safeJobPath paths folder relative = some resolved) : Inside paths folder relative := by
  rw [safeJobPath] at safe
  obtain ⟨named, safe⟩ := past_guard safe nofun
  split at safe
  case h_1 => cases safe
  rename_i root rooted
  obtain ⟨long, safe⟩ := past_guard safe nofun
  split at safe
  case h_1 => cases safe
  rename_i place resolves
  split_ifs at safe with under next
  obtain ⟨rest, rfl⟩ := under
  refine ⟨root, root ++ rest, rooted, resolves, ?_⟩
  rw [List.drop_left] at next
  cases rest with
  | nil => exact .inl (List.append_nil _)
  | cons c rest =>
    have slash : c = 0x2f := by simpa using next
    exact .inr ⟨rest, by rw [slash, List.append_assoc]; rfl⟩

theorem path_inside {path : Bytes} {entry : Jval}
    (named : pathIn paths folder (jsonGet entry (utf8 "path")) = true) (path_ : pathOf entry = some path) :
    Inside paths folder path := by
  rw [pathOf] at path_
  split at path_
  · rename_i found
    cases path_
    rw [found, pathIn] at named
    obtain ⟨resolved, safe⟩ := Option.isSome_iff_exists.mp named
    exact safe_job_path_inside safe
  · cases path_

theorem match_path (entry : Jval) (checked : matchFormed paths folder entry = true) :
    pathIn paths folder (jsonGet entry (utf8 "path")) = true := by
  cases entry with
  | obj fields =>
    simp only [matchFormed, Bool.and_eq_true] at checked
    exact checked.1.1.1.2
  | _ => cases checked

theorem unreadable_path (entry : Jval)
    (checked : unreadableFormed paths folder entry = true) : pathIn paths folder (jsonGet entry (utf8 "path")) = true := by
  cases entry with
  | obj fields =>
    simp only [unreadableFormed, Bool.and_eq_true] at checked
    exact checked.1.2
  | _ => cases checked

theorem deferred_path (entry : Jval)
    (checked : deferredFormed paths folder entry = true) : pathIn paths folder (jsonGet entry (utf8 "path")) = true := by
  cases entry with
  | obj fields =>
    simp only [deferredFormed, Bool.and_eq_true] at checked
    exact checked.1.2
  | _ => cases checked

theorem formed_inside (formed : Formed call said) : ∀ path ∈ recordedPaths said, Inside call.paths call.folder path := by
  have each (entries : List Jval) (checked : Jval → Bool) (all : entries.all checked = true)
      (named : ∀ entry, checked entry = true → pathIn call.paths call.folder (jsonGet entry (utf8 "path")) = true) :
      ∀ path ∈ pathsOf entries, Inside call.paths call.folder path := by
    intro path inside
    obtain ⟨entry, among, path_⟩ := List.mem_filterMap.mp inside
    exact path_inside (named entry (List.all_eq_true.mp all entry among)) path_
  intro path inside
  rw [recordedPaths, List.mem_append, List.mem_append] at inside
  rcases inside with (inside | inside) | inside
  · exact each _ _ formed.matched match_path path inside
  · exact each _ _ formed.unread unreadable_path path inside
  · exact each _ _ formed.later deferred_path path inside

theorem parked_listed_iff {rows : List SkimRow} {unreadable : List Jval} :
    parkedListed rows unreadable = true ↔ ∀ row ∈ rows, row.parked = true → row.path ∈ pathsOf unreadable := by
  simp only [parkedListed, List.all_eq_true, Bool.or_eq_true, Bool.not_eq_true', List.any_eq_true, beq_iff_eq, pathsOf,
    List.mem_filterMap]
  refine forall₂_congr fun row _ => ?_
  cases row.parked <;> simp

theorem read_skim_listed {raw : Bytes} (read : readSkim call = some raw)
    (listed : parkedListed (skimRows raw) said.unreadable = true) : ParkedListed call said := by
  obtain ⟨whole, _⟩ := read_some read
  rw [ParkedListed, skimmed, whole]
  exact parked_listed_iff.mp listed

end Finish

-- An answer keeps its promise just when the call is refused, or is in order by itself.
theorem finish_accounts_iff (call : FinishCall) : Accounts call ↔ InOrder call := by
  rw [Accounts, InOrder, finish]
  cases accepted : handleFinish call with
  | none =>
    refine iff_of_true rfl fun said formed listed => ?_
    rw [handle_finish_iff.mpr ⟨formed, listed⟩] at accepted
    cases accepted
  | some said =>
    obtain ⟨formed, listed⟩ := handle_finish_iff.mp accepted
    obtain ⟨fields, built⟩ := finish_fields_some call.jobId said
    dsimp only
    rw [built]
    constructor
    · rintro ⟨_, parked, apart, adds⟩ other formed' listed'
      cases accepted.symm.trans (handle_finish_iff.mpr ⟨formed', listed'⟩)
      exact ⟨apart, adds, fun _ => parked⟩
    · intro order
      obtain ⟨apart, adds, unread⟩ := order said formed listed
      refine ⟨formed_inside formed, ?_, apart, adds⟩
      cases read : readSkim call with
      | none => exact unread read
      | some raw =>
        rw [read] at listed
        exact read_skim_listed read listed

def answering : EventCalls where
  opens := true
  stats := true
  allocates := true
  reads := true
  copies := true
  builds := true
  names := true
  creates := true
  writes := true
  syncs := true
  closes := true
  renames := true

def twoSkimmed : Bytes :=
  utf8 "\x7b\"path\":\"a\"\x7d\n\x7b\"path\":\"b\"\x7d\n"

def forgetful : FinishCall where
  paths := { realpath := some, regular := fun _ => true }
  folder := utf8 "/f"
  jobId := utf8 "job-1"
  args := [(utf8 "matches", .arr [.obj [(utf8 "path", .str (utf8 "a")), (utf8 "evidence", .str (utf8 "x"))]])]
  skim := some twoSkimmed
  reads := answering
  writes := answering
  result := none

def forgetfulSaid : FinishResult where
  matches_ := [.obj [(utf8 "path", .str (utf8 "a")), (utf8 "evidence", .str (utf8 "x"))]]
  rejectedCount := 0
  unreadable := []
  deferred := []
  notes := none

theorem forgotten_file_accepted : ¬ Accounts forgetful := by
  have rows : skimRows twoSkimmed = [⟨utf8 "a", false⟩, ⟨utf8 "b", false⟩] := by decide +kernel
  have content : forgetful.skim = some twoSkimmed := rfl
  have formed : Formed forgetful forgetfulSaid :=
    ⟨by decide +kernel, rfl, by decide +kernel, rfl, rfl, rfl, rfl, rfl, rfl, rfl⟩
  have listed : (readSkim forgetful).all (fun raw => parkedListed (skimRows raw) forgetfulSaid.unreadable) = true := by
    cases read : readSkim forgetful with
    | none => rfl
    | some raw =>
      have whole := (read_some read).1
      rw [content] at whole
      rw [Option.all_some, ← Option.some.inj whole, rows]
      rfl
  obtain ⟨fields, built⟩ := finish_fields_some forgetful.jobId forgetfulSaid
  rw [Accounts, finish, handle_finish_iff.mpr ⟨formed, listed⟩]
  dsimp only
  rw [built]
  rintro ⟨_, _, _, adds⟩
  rw [AddsUp, skimmed, content, Option.map_some, Option.getD_some, rows] at adds
  revert adds
  decide

end SamosaChat.Jobs
