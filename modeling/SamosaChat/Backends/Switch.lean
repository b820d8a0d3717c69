import SamosaChat.Setup.Profile
import SamosaChat.Lib.Runs

set_option autoImplicit false

namespace SamosaChat.Backends

open Utf8 Text Buffers Durable Setup

-- molmo2 is the virtual backend: it has no resident process and no weights file of its own.
inductive Backend
  | qwen
  | bonsai
  | ornith
  | maple
  | molmo2
deriving DecidableEq

def Backend.name : Backend → Bytes
  | .qwen => utf8 "qwen"
  | .bonsai => utf8 "bonsai"
  | .ornith => utf8 "ornith"
  | .maple => utf8 "maple"
  | .molmo2 => utf8 "molmo2-4b-mlx-q4-v1"

def backendNamed (name : Bytes) : Option Backend :=
  [Backend.qwen, .bonsai, .ornith, .maple, .molmo2].find? fun backend => backend.name == name

-- read_small_file, with a buffer of 80 bytes.
def readSmallFile (content : Bytes) : Bytes :=
  (content.take 79).rdropWhile fun c => c == newline || c == 0x0d || c == 0x20

def selected (file : Option Bytes) : Option Backend :=
  file.bind fun content => backendNamed (cstr (readSmallFile content))

def persisted (backend : Backend) : Bytes :=
  backend.name ++ [newline]

structure Fingerprint where
  bytes : Int
  mtimeSec : Int
  mtimeNsec : Int
deriving DecidableEq

structure SelectionJob where
  requestedBackend : Backend
  previousBackend : Backend
  -- none is an expected_bytes of -1.
  expected : Option Fingerprint
deriving DecidableEq

inductive Phase
  -- The request's thread.
  | outside
  | accepted (name : Backend) (version : Option Bytes)
  | loaded (name : Backend) (version : Option Bytes) (p : Option Profile)
  | stored (name : Backend)
  | admitted (name : Backend)
  | comparing (name : Backend)
  | direct
  | waiting (name : Backend)
  -- Under selection_mu, for molmo2.
  | writing (previous : Backend)
  | undoing (previous : Backend)
  -- With active_selection_job_id: the request's thread, then the watchdog.
  | starting (job : SelectionJob)
  | loading
  | polling (job : SelectionJob)
  | checking (job : SelectionJob)
  | committing (job : SelectionJob)
  | failing (job : SelectionJob) (code : String) (answers : Bool)
  | failed (job : SelectionJob) (code : String) (answers : Bool)
  | committed
  | gone
deriving DecidableEq

def Phase.locks : Phase → Bool
  | .writing _ | .undoing _ => true
  | _ => false

def Phase.jobs : Phase → Bool
  | .starting _ | .loading | .polling _ | .checking _ | .committing _ | .failing _ _ _ | .failed _ _ _ | .committed => true
  | _ => false

def Phase.switches (phase : Phase) : Bool :=
  phase.locks || phase.jobs

structure Request where
  phase : Phase
  profileChanged : Bool
  fileChanged : Bool
  backendChanged : Bool
  -- The process and the selection file when its switch began.
  ran : Option Backend
  before : Option Bytes
  ready : Bool
  unchanged : Bool

def newRequest : Request where
  phase := .outside
  profileChanged := false
  fileChanged := false
  backendChanged := false
  ran := none
  before := none
  ready := false
  unchanged := false

structure Response where
  request : Nat
  status : Nat
  code : String
  profileChanged : Bool
  fileChanged : Bool
  backendChanged : Bool
  stopping : Bool
deriving DecidableEq

structure Commit where
  backend : Backend
  ready : Bool
  unchanged : Bool

structure Failure where
  previous : Backend
  code : String
  fileBefore : Option Bytes
  fileAfter : Option Bytes
  backendAfter : Backend
  stopping : Bool

structure World where
  backend : Backend
  -- The backend whose process is up.
  child : Option Backend
  selectionFile : Option Bytes
  profile : Option Bytes
  generating : Bool
  stopping : Bool
  available : Backend → Bool
  weights : Backend → Option Fingerprint
  locked : Option Nat
  active : Option Nat
  jobs : Nat → Option SelectionJob
  requests : Nat → Request
  responses : List Response
  commits : List Commit
  failures : List Failure

inductive Event
  | arrive (i : Nat) (name version : Option Bytes)
  | profileLoad (i : Nat) (calls : EventCalls)
  | profileSave (i : Nat) (calls : EventCalls) (now : Stamp)
  | check (i : Nat)
  | compareDirect (i : Nat)
  | compare (i : Nat)
  | takeDirect (i : Nat)
  | writeDirect (i : Nat) (calls : EventCalls)
  | undoDirect (i : Nat) (starts : Bool)
  | take (i : Nat) (generates saves : Bool)
  | start (i : Nat) (starts : Bool)
  | load (i : Nat) (reads : Bool)
  | seeStopping (i : Nat)
  | seeDead (i : Nat)
  | seeReady (i : Nat)
  | expire (i : Nat)
  | fingerprint (i : Nat)
  | commit (i : Nat) (calls : EventCalls)
  | restore (i : Nat) (starts : Bool)
  | clear (i : Nat)
  -- What happens beside the requests.
  | crash
  | generation (active : Bool)
  | profileWritten (file : Option Bytes)
  | files (available : Backend → Bool) (weights : Backend → Option Fingerprint)
  | stop

def set (world : World) (i : Nat) (request : Request) : World :=
  { world with requests := Function.update world.requests i request }

def moved (world : World) (i : Nat) (phase : Phase) : World :=
  set world i { world.requests i with phase := phase }

def answered (world : World) (i status : Nat) (code : String) : World :=
  let request := world.requests i
  { world with
    responses := world.responses ++
      [⟨i, status, code, request.profileChanged, request.fileChanged, request.backendChanged, world.stopping⟩] }

def respond (world : World) (i status : Nat) (code : String) : World :=
  moved (answered world i status code) i .gone

-- selection_stat_fingerprint: nothing is resolved for the virtual backend.
def statFingerprint (world : World) (backend : Backend) : Option Fingerprint :=
  if backend = .molmo2 then none else world.weights backend

-- backend_start, after backend_stop: the process that is up then, or none where it fails.
def backendStart (world : World) (backend : Backend) (starts : Bool) : Option (Option Backend) :=
  if !world.available backend then none
  else if backend = .molmo2 then some none
  else if starts then some (some backend)
  else none

def restored (world : World) (previous : Backend) (starts : Bool) : Option Backend :=
  if world.stopping then none else (backendStart world previous starts).getD none

def selectedModel (calls : EventCalls) (file : Option Bytes) : Bytes :=
  ((profileLoad calls file).getD noProfile).selectedModelId.text

def arrive (world : World) (i : Nat) (name version : Option Bytes) : World :=
  match name.bind backendNamed with
  | none => respond world i 400 "invalid_backend"
  | some backend =>
    if !world.available backend then respond world i 409 "backend_unavailable"
    else
      set world i
        { newRequest with
          phase := .accepted backend (version.map fun text => (pathCopy 128 text).1.text)
          -- A virtual backend is ready where its package is there, which has just been asked.
          ready := backend == .molmo2 }

def saveProfile (world : World) (i : Nat) (name : Backend) (version : Option Bytes) (p : Option Profile)
    (calls : EventCalls) (now : Stamp) : World :=
  let file := (profileSave calls (profileSetSelection name.name version now p) world.profile).2
  { set world i
      { world.requests i with
        phase := .stored name
        profileChanged := selectedModel calm file != selectedModel calm world.profile } with
    profile := file }

-- Under selection_mu: the previous process is stopped and the name is set.
def takeDirect (world : World) (i : Nat) : World :=
  if world.active.isSome then respond world i 409 "selection_busy"
  else
    { set world i
        { world.requests i with
          phase := .writing world.backend
          ran := world.child
          before := world.selectionFile
          unchanged := (statFingerprint world .molmo2).isNone } with
      locked := some i
      child := none
      backend := .molmo2 }

def writeDirect (world : World) (i : Nat) (previous : Backend) (calls : EventCalls) : World :=
  match writeSmallFile calls (persisted .molmo2) world.selectionFile with
  | (true, file) =>
    let request := world.requests i
    respond
      { set world i { request with fileChanged := file != world.selectionFile } with
        selectionFile := file
        locked := none
        commits := world.commits ++ [⟨.molmo2, request.ready, request.unchanged⟩] }
      i 202 ""
  | (false, file) => { moved world i (.undoing previous) with selectionFile := file }

def failed (world : World) (previous : Backend) (i : Nat) (code : String) : World :=
  { world with
    failures := world.failures ++
      [⟨previous, code, (world.requests i).before, world.selectionFile, world.backend, world.stopping⟩] }

def undoDirect (world : World) (i : Nat) (previous : Backend) (starts : Bool) : World :=
  let request := world.requests i
  let child := restored world previous starts
  let back :=
    { set world i { request with backendChanged := child != request.ran } with
      backend := previous
      child := child
      locked := none }
  respond (failed back previous i "registry_commit_failed") i 500 "registry_commit_failed"

-- From the lock to active_selection_job_id. The bounded wait before it only delays the lock.
def take (world : World) (i : Nat) (name : Backend) (generates saves : Bool) : World :=
  if world.active.isSome then respond world i 409 "selection_busy"
  else if !generates then respond world i 500 "internal"
  else if !saves then respond world i 500 "internal"
  else
    let job : SelectionJob := ⟨name, world.backend, statFingerprint world name⟩
    { set world i
        { world.requests i with
          phase := .starting job
          ran := world.child
          before := world.selectionFile
          ready := false
          unchanged := false } with
      jobs := Function.update world.jobs i (some job)
      active := some i }

-- backend_stop, the name and backend_start: nobody else writes the name or the process between them.
-- The request has been answered when the watchdog begins.
def start (world : World) (i : Nat) (job : SelectionJob) (starts : Bool) : World :=
  match backendStart world job.requestedBackend starts with
  | none =>
    { moved world i (.failing job "backend_start_failed" true) with
      child := none
      backend := job.requestedBackend }
  | some child =>
    moved { answered world i 202 "" with child := child, backend := job.requestedBackend } i .loading

-- selection_job_load: where it fails the watchdog ends, and leaves active_selection_job_id as it is.
def load (world : World) (i : Nat) (reads : Bool) : World :=
  match reads, world.jobs i with
  | true, some job => moved world i (.polling job)
  | _, _ => moved world i .gone

def checkFingerprint (world : World) (i : Nat) (job : SelectionJob) : World :=
  if job.expected.isNone || statFingerprint world job.requestedBackend == job.expected then
    set world i { world.requests i with phase := .committing job, unchanged := true }
  else moved world i (.failing job "fingerprint_mismatch" false)

def commit (world : World) (i : Nat) (job : SelectionJob) (calls : EventCalls) : World :=
  match writeSmallFile calls (persisted job.requestedBackend) world.selectionFile with
  | (true, file) =>
    let request := world.requests i
    { set world i { request with phase := .committed, fileChanged := file != world.selectionFile } with
      selectionFile := file
      commits := world.commits ++ [⟨job.requestedBackend, request.ready, request.unchanged⟩] }
  | (false, file) => { moved world i (.failing job "registry_commit_failed" false) with selectionFile := file }

-- selection_fail
def restore (world : World) (i : Nat) (job : SelectionJob) (code : String) (answers : Bool) (starts : Bool) : World :=
  let request := world.requests i
  let child := restored world job.previousBackend starts
  { set world i { request with phase := .failed job code answers, backendChanged := child != request.ran } with
    child := child
    backend := job.previousBackend }

def clearFailed (world : World) (i : Nat) (job : SelectionJob) (code : String) (answers : Bool) : World :=
  let ended := failed { world with active := none } job.previousBackend i code
  if answers then respond ended i 500 code else moved ended i .gone

def step (world : World) : Event → World
  | .arrive i name version =>
    match (world.requests i).phase with
    | .outside => arrive world i name version
    | _ => world
  | .profileLoad i calls =>
    match (world.requests i).phase with
    | .accepted name version => moved world i (.loaded name version (profileLoad calls world.profile))
    | _ => world
  | .profileSave i calls now =>
    match (world.requests i).phase with
    | .loaded name version p => saveProfile world i name version p calls now
    | _ => world
  | .check i =>
    match (world.requests i).phase with
    | .stored name => if world.generating then respond world i 409 "generation_active" else moved world i (.admitted name)
    | _ => world
  | .compareDirect i =>
    match (world.requests i).phase with
    | .admitted name => moved world i (if name ≠ world.backend ∧ name = .molmo2 then .direct else .comparing name)
    | _ => world
  | .compare i =>
    match (world.requests i).phase with
    | .comparing name => if name ≠ world.backend then moved world i (.waiting name) else respond world i 202 ""
    | _ => world
  | .takeDirect i =>
    match (world.requests i).phase, world.locked with
    | .direct, none => takeDirect world i
    | _, _ => world
  | .writeDirect i calls =>
    match (world.requests i).phase with
    | .writing previous => writeDirect world i previous calls
    | _ => world
  | .undoDirect i starts =>
    match (world.requests i).phase with
    | .undoing previous => undoDirect world i previous starts
    | _ => world
  | .take i generates saves =>
    match (world.requests i).phase, world.locked with
    | .waiting name, none => take world i name generates saves
    | _, _ => world
  | .start i starts =>
    match (world.requests i).phase with
    | .starting job => start world i job starts
    | _ => world
  | .load i reads =>
    match (world.requests i).phase with
    | .loading => load world i reads
    | _ => world
  | .seeStopping i =>
    match (world.requests i).phase, world.stopping with
    | .polling job, true => moved world i (.failed job "gateway_shutdown" false)
    | _, _ => world
  | .seeDead i =>
    match (world.requests i).phase, world.child with
    | .polling job, none => moved world i (.failing job "backend_crashed" false)
    | _, _ => world
  | .seeReady i =>
    match (world.requests i).phase, world.child with
    | .polling job, some _ => set world i { world.requests i with phase := .checking job, ready := true }
    | _, _ => world
  | .expire i =>
    match (world.requests i).phase with
    | .polling job => moved world i (.failing job "readiness_timeout" false)
    | _ => world
  | .fingerprint i =>
    match (world.requests i).phase with
    | .checking job => checkFingerprint world i job
    | _ => world
  | .commit i calls =>
    match (world.requests i).phase with
    | .committing job => commit world i job calls
    | _ => world
  | .restore i starts =>
    match (world.requests i).phase with
    | .failing job code answers => restore world i job code answers starts
    | _ => world
  | .clear i =>
    match (world.requests i).phase, world.locked with
    | .failed job code answers, none => clearFailed world i job code answers
    | .committed, none => moved { world with active := none } i .gone
    | _, _ => world
  | .crash => { world with child := none }
  | .generation active => { world with generating := active }
  | .profileWritten file => { world with profile := file }
  | .files available weights => { world with available := available, weights := weights }
  | .stop => { world with stopping := true, child := none }

-- load_config
def initialBackend (file : Option Bytes) (available : Backend → Bool) : Backend :=
  match (selected file).filter available with
  | some backend => backend
  | none => if available .ornith then .ornith else if available .bonsai then .bonsai else .qwen

def newWorld (file profile : Option Bytes) (available : Backend → Bool) (weights : Backend → Option Fingerprint)
    (starts : Bool) : World where
  backend := initialBackend file available
  child := if available (initialBackend file available) && initialBackend file available != .molmo2 && starts then
    some (initialBackend file available) else none
  selectionFile := file
  profile := profile
  generating := false
  stopping := false
  available := available
  weights := weights
  locked := none
  active := none
  jobs := fun _ => none
  requests := fun _ => newRequest
  responses := []
  commits := []
  failures := []

end SamosaChat.Backends
