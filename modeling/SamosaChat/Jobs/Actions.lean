import SamosaChat.Durable.SmallFile
import SamosaChat.Jobs.Schedule
import SamosaChat.Jobs.WatchDelta
import SamosaChat.Lib.Sha256

set_option autoImplicit false

namespace SamosaChat.Jobs

open Utf8 Text Binary64 Json Durable

def actionMax : Nat := 1 <<< 20

def jobStateMax : Nat := 65536

def selectionMax : Nat := 256 <<< 10

def maxSelected : Nat := 50

structure ActionFiles where
  job : Option Bytes
  plan : Option Bytes
  applied : Option Bytes
  organize : Option Bytes

-- What the world does at one line of the plan: the file that asks for a stop, the journal, the mover's
-- output when it ended well, and the references to a file that was moved.
structure LineCalls where
  stopped : Bool
  append : AppendAttempt
  answer : Option Bytes
  references : Bool

structure ActionRequest where
  body : Bytes
  calls : EventCalls
  opens : Bool
  busy : Bool
  marks : Bool
  streams : Bool
  selection : Bytes → Option Bytes
  line : Nat → LineCalls

inductive MoverMode
  | move
  | copy
  | undo
  | undoCopy
deriving DecidableEq

structure MoverCall where
  mode : MoverMode
  folder : Bytes
  sizeMtime : Option (Double × Double)
  devIno : Option (Double × Double)
  sha256 : Option Bytes
  operationId : Option Bytes
  src : Bytes
  dst : Bytes

structure MoverRun where
  call : MoverCall
  moved : Bool

inductive ActionAnswer
  | invalidJob
  | jobNotFound
  | actionBusy
  | actionStateFailed
  | staleOrganizePlan
  | planNotFound
  | unsent
  | done (moved total : Nat) (stopped : Bool)
deriving DecidableEq

structure OrganizePlan where
  parent : Bytes
  planId : Bytes
  moves : List Jval

def organizePlan (raw : Bytes) : Option OrganizePlan := do
  let obj ← jsonValue raw
  let parent ← stringField obj "selection_job_id"
  let planId ← stringField obj "plan_id"
  match jsonGet obj (utf8 "moves") with
  | some (.arr moves) =>
    if validJobId parent && decide (moves.length ≤ maxSelected) then some ⟨parent, planId, moves⟩ else none
  | _ => none

def selectedPath : Jval → Bool
  | .str path => decide (path.length < pathMax)
  | _ => false

def jobsSelectionRead (calls : EventCalls) (file : Option Bytes) : Option Bytes :=
  match file with
  | none => some (utf8 "[]")
  | some _ =>
    (readFileLimit calls selectionMax file).filter fun raw =>
      match jsonValue raw with
      | some (.arr paths) => decide (paths.length ≤ maxSelected) && paths.all selectedPath
      | _ => false

def fromOrTo (path : Bytes) (move : Jval) : Bool :=
  match stringField move "src_rel", stringField move "dst_rel" with
  | some src, some dst => src == path || dst == path
  | _, _ => false

def eachMatched (moves : List Jval) : List Nat → List Jval → Bool
  | _, [] => true
  | matched, .str path :: paths =>
    match moves.findIdx? (fromOrTo path) with
    | none => false
    | some found => if found ∈ matched then false else eachMatched moves (found :: matched) paths
  | _, _ :: _ => false

def planHash (plan : Bytes) : Bytes :=
  utf8 (Sha256.hex (Sha256.digest (cstr plan)))

def jobsSelectedActionGate (undo : Bool) (request : ActionRequest) (body : Jval) (files : ActionFiles) : Bool :=
  match files.organize with
  | none => true
  | some _ =>
    match (readFileLimit request.calls actionMax files.organize).bind organizePlan with
    | none => false
    | some organize =>
      match readFileLimit request.calls actionMax files.plan with
      | none => false
      | some plan =>
        if planHash plan ≠ organize.planId then false
        else if undo then true
        else if stringField body "plan_id" ≠ some organize.planId then false
        else
          match (jobsSelectionRead request.calls (request.selection organize.parent)).bind jsonValue with
          | some (.arr paths) => paths.length == organize.moves.length && eachMatched organize.moves [] paths
          | _ => false

def loadJobState (calls : EventCalls) (file : Option Bytes) : Option (Bytes × Bytes) :=
  match (readFileLimit calls jobStateMax file).bind jsonValue with
  | some (.obj fields) =>
    (stringField (.obj fields) "goal").bind fun goal =>
      (stringField (.obj fields) "folder").map fun folder => (goal, folder)
  | _ => none

def notNegative : Double → Bool
  | .finite negative magnitude => !negative || magnitude.units == 0
  | .inf negative => !negative
  | .nan => false

def isCopy (move : Jval) : Bool :=
  stringField move "op" == some (utf8 "copy")

def moverCall (undo : Bool) (folder : Bytes) (move : Jval) (src dst : Bytes) : MoverCall where
  mode := if isCopy move then (if undo then .undoCopy else .copy) else if undo then .undo else .move
  folder := folder
  sizeMtime :=
    match (numberField move "size").filter notNegative, numberField move "mtime" with
    | some size, some mtime => some (size, mtime)
    | _, _ => none
  devIno :=
    match (numberField move "dev").filter notNegative, (numberField move "ino").filter notNegative with
    | some dev, some ino => some (dev, ino)
    | _, _ => none
  sha256 := stringField move "sha256"
  operationId := if isCopy move then stringField move "operation_id" else none
  src := src
  dst := dst

structure Progress where
  applied : Option Bytes
  moved : Nat
  total : Nat
  runs : List MoverRun

def journalLine (undo : Bool) (append : AppendAttempt) (previous : Option Bytes) (line : Bytes) (applied : Option Bytes) :
    Bool × Option Bytes :=
  if undo || previous.any (fun text => (Text.find line (cstr text)).isSome) then (true, applied)
  else
    match append.fate .open with
    | .allowed =>
      let (answer, content) := appendDurableLine append (line ++ [newline]) (applied.getD [])
      (answer == some true, some content)
    | _ => (false, applied)

def saidDone (move : Jval) (result : Bytes) : Bool :=
  (Text.find (utf8 (if isCopy move then "\"applied\":true" else "\"moved\":true")) (cstr result)).isSome

def referencesSaved (calls : LineCalls) (move : Jval) : Bool :=
  if stringField move "op" = some (utf8 "move") then calls.references else true

def applyLine (undo : Bool) (folder : Bytes) (previous : Option Bytes) (calls : LineCalls) (line : Bytes)
    (progress : Progress) : Progress :=
  match jsonValue line with
  | none => progress
  | some move =>
    match stringField move "src", stringField move "dst" with
    | some src, some dst =>
      let (ready, applied) := journalLine undo calls.append previous line progress.applied
      let moved := ready && calls.answer.any (saidDone move)
      { applied := applied
        moved := if moved && referencesSaved calls move then progress.moved + 1 else progress.moved
        total := progress.total + 1
        runs := if ready then progress.runs ++ [⟨moverCall undo folder move src dst, moved⟩] else progress.runs }
    | _, _ => progress

def applyLines (undo : Bool) (folder : Bytes) (previous : Option Bytes) (calls : Nat → LineCalls) :
    Nat → List Bytes → Progress → Progress × Bool
  | _, [], progress => (progress, false)
  | i, line :: lines, progress =>
    if (calls i).stopped then (progress, true)
    else applyLines undo folder previous calls (i + 1) lines (applyLine undo folder previous (calls i) line progress)

structure ActionOutcome where
  files : ActionFiles
  answer : ActionAnswer
  runs : List MoverRun

def planLines (raw : Bytes) : List Bytes :=
  (lines (cstr raw)).filter (· ≠ [])

def jobsApplyOrUndoInner (undo : Bool) (request : ActionRequest) (body : Jval) (files : ActionFiles) : ActionOutcome :=
  if jobsSelectedActionGate undo request body files = false then ⟨files, .staleOrganizePlan, []⟩
  else
    match loadJobState request.calls files.job with
    | none => ⟨files, .jobNotFound, []⟩
    | some (_, folder) =>
      match readFileLimit request.calls actionMax (if undo then files.applied else files.plan) with
      | none => ⟨files, .planNotFound, []⟩
      | some raw =>
        if request.streams = false then ⟨files, .unsent, []⟩
        else
          let previous := readFileLimit request.calls actionMax files.applied
          let (progress, stopped) := applyLines undo folder previous request.line 0 (planLines raw)
            { applied := files.applied, moved := 0, total := 0, runs := [] }
          let undone := undo && !stopped && progress.moved == progress.total && decide (progress.total > 0)
          { files := { files with applied := if undone then none else progress.applied }
            answer := .done progress.moved progress.total stopped
            runs := progress.runs }

def requestJob (request : ActionRequest) : Option (Jval × Bytes) :=
  match jsonValue request.body with
  | some (.obj fields) => (stringField (.obj fields) "job_id").map fun jobId => (.obj fields, jobId)
  | _ => none

def jobsApplyOrUndo (undo : Bool) (request : ActionRequest) (files : ActionFiles) : ActionOutcome :=
  match requestJob request with
  | none => ⟨files, .invalidJob, []⟩
  | some (body, jobId) =>
    if validJobId jobId = false ∨ jobId.length ≥ 128 then ⟨files, .invalidJob, []⟩
    else if request.opens = false then ⟨files, .jobNotFound, []⟩
    else if request.busy then ⟨files, .actionBusy, []⟩
    else if request.marks = false then ⟨files, .actionStateFailed, []⟩
    else jobsApplyOrUndoInner undo request body files

def appliedRuns : ActionFiles → List ActionRequest → List MoverRun
  | _, [] => []
  | files, request :: requests =>
    let outcome := jobsApplyOrUndo false request files
    outcome.runs ++ appliedRuns outcome.files requests

def SamePlan (files files' : ActionFiles) : Prop :=
  files'.job = files.job ∧ files'.plan = files.plan ∧ files'.organize = files.organize

section Apply

variable {undo : Bool} {request : ActionRequest} {body : Jval} {files : ActionFiles}

theorem inner_same_plan : SamePlan files (jobsApplyOrUndoInner undo request body files).files := by
  rw [jobsApplyOrUndoInner]
  by_cases stale : jobsSelectedActionGate undo request body files = false
  · rw [if_pos stale]
    exact ⟨rfl, rfl, rfl⟩
  rw [if_neg stale]
  cases loadJobState request.calls files.job with
  | none => exact ⟨rfl, rfl, rfl⟩
  | some state =>
    cases readFileLimit request.calls actionMax (if undo then files.applied else files.plan) with
    | none => exact ⟨rfl, rfl, rfl⟩
    | some raw =>
      dsimp only
      by_cases unsent : request.streams = false
      · rw [if_pos unsent]
        exact ⟨rfl, rfl, rfl⟩
      · rw [if_neg unsent]
        exact ⟨rfl, rfl, rfl⟩

theorem apply_same_plan : SamePlan files (jobsApplyOrUndo undo request files).files := by
  unfold jobsApplyOrUndo
  split
  · exact ⟨rfl, rfl, rfl⟩
  · split_ifs
    · exact ⟨rfl, rfl, rfl⟩
    · exact ⟨rfl, rfl, rfl⟩
    · exact ⟨rfl, rfl, rfl⟩
    · exact ⟨rfl, rfl, rfl⟩
    · exact inner_same_plan

theorem journal_line_undisturbed {append : AppendAttempt} (undisturbed : append.undisturbed) (line : Bytes) :
    journalLine false append none line none = (true, some (line ++ [newline])) := by
  have window : InWindow [] := .inl (Nat.zero_le _)
  have appended := (append_undisturbed undisturbed (line ++ [newline]) []).1 window
  rw [complete_self (.inl rfl), List.nil_append] at appended
  rw [journalLine, if_neg (by simp), undisturbed .open]
  dsimp only
  rw [Option.getD_none, appended]
  rfl

theorem apply_line_run {folder line src dst : Bytes} {previous applied : Option Bytes} {calls : LineCalls} {move : Jval}
    {progress : Progress} (read : jsonValue line = some move) (source : stringField move "src" = some src)
    (target : stringField move "dst" = some dst)
    (journaled : journalLine undo calls.append previous line progress.applied = (true, applied)) :
    (applyLine undo folder previous calls line progress).runs =
      progress.runs ++ [⟨moverCall undo folder move src dst, calls.answer.any (saidDone move)⟩] := by
  rw [applyLine, read]
  dsimp only
  rw [source, target]
  dsimp only
  rw [journaled]
  dsimp only
  rw [if_pos rfl, Bool.true_and]

end Apply

end SamosaChat.Jobs
