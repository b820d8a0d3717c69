import SamosaChat.Install.Catalog

set_option autoImplicit false

namespace SamosaChat.Install

open Utf8 Text Binary64 Decimal Json Buffers

inductive InstallState
  | queued
  | downloading
  | verifying
  | installing
  | installed
  | paused
  | canceled
  | failed
deriving DecidableEq

def InstallState.working : InstallState → Bool
  | .queued | .downloading | .verifying | .installing => true
  | _ => false

def InstallState.over : InstallState → Bool
  | .canceled | .failed => true
  | _ => false

theorem over_rests {state : InstallState} (ended : state.over = true) : state.working = false := by
  cases state with
  | canceled => rfl
  | failed => rfl
  | _ => cases ended

-- What job.json holds. Its job_id is the directory's name until a retry moves the directory; a record that was moved is
-- failed or canceled, and is not written again.
structure InstallJob where
  modelId : Buffer 80
  version : Buffer 128
  clientRequestId : Buffer 128
  state : InstallState
  errorCode : Buffer 64
  errorMessage : Buffer 192
deriving DecidableEq

def newJob (modelId : Buffer 80) (version clientRequestId : Buffer 128) : InstallJob where
  modelId := modelId
  version := version
  clientRequestId := clientRequestId
  state := .queued
  errorCode := empty 64
  errorMessage := empty 192

def InstallJob.moved (job : InstallJob) (state : InstallState) : InstallJob :=
  { job with state := state }

def InstallJob.erred (job : InstallJob) (code : String) (message : Bytes) : InstallJob :=
  { job with
    errorCode := (pathCopy 64 (utf8 code)).1
    errorMessage := if message = [] then job.errorMessage else (pathCopy 192 message).1 }

inductive Place
  | staged (job name : Bytes)
  | home (segments : List Bytes)
deriving DecidableEq

structure Gateway where
  catalog : Catalog
  installs : Option (List Bytes)

def Gateway.place (gateway : Gateway) (installPath : Bytes) : Place :=
  let path := segments installPath
  match gateway.installs with
  | none => .home path
  | some root =>
    if root.isPrefixOf path then
      match path.drop root.length with
      | [job, name] => .staged job name
      | _ => .home path
    else .home path

def Gateway.artifacts (gateway : Gateway) (job : InstallJob) : List Artifact :=
  ((catalogFindModel gateway.catalog job.modelId.text job.version.text).map artifactsOf).getD []

inductive Stop
  | pause
  | cancel
deriving DecidableEq

inductive Stage
  | artifact (i : Nat)
  | fetching (i : Nat) (curl : Nat)
  | verifying (i : Nat)
  | hashed (i : Nat)
  | stopping
  | failing
  | publishing (i : Nat)

inductive Phase
  | spawned
  | holding (job : InstallJob) (stage : Stage)
  | clearing
  | gone

def Phase.live : Phase → Bool
  | .spawned | .holding _ _ => true
  | _ => false

structure Worker where
  job : Bytes
  phase : Phase

structure Curl where
  dest : Place
  exit : Option Int

inductive Wish
  | create (modelId : Buffer 80) (version clientRequestId : Buffer 128)
  | resume (id : Bytes) (job : InstallJob)
  | retry (id : Bytes) (job : InstallJob)

inductive Handler
  | idle
  | wants (wish : Wish)
  | admitted (wish : Wish)
  | queued (id : Bytes)
  | revoking (id : Bytes) (job : InstallJob)
  | looking (id : Bytes) (state : InstallState) (stop : Stop)
  | signaling (id : Bytes) (stop : Stop)
  | awaiting (id : Bytes)

structure World where
  files : Place → Option Content
  jobs : Bytes → Option InstallJob
  active : Option Bytes
  stopSignal : Option Stop
  curlPid : Option Nat
  workers : Nat → Option Worker
  curls : Nat → Option Curl
  handlers : Nat → Handler
  -- The jobs a cancel reported as canceled, what workers published and where, and the workers that began to publish.
  acked : List Bytes
  publishes : List (Bytes × Artifact)
  published : Place → Option (Nat × Artifact)
  committed : List Nat

def opened (files : Place → Option Content) : World where
  files := files
  jobs := fun _ => none
  active := none
  stopSignal := none
  curlPid := none
  workers := fun _ => none
  curls := fun _ => none
  handlers := fun _ => .idle
  acked := []
  publishes := []
  published := fun _ => none
  committed := []

inductive Action
  | begin (curl : Nat) (saved : Bool)
  | reap (saved : Bool)
  | hash (readable : Bool)
  | check
  | stop (saved : Bool)
  | fail (saved : Bool)
  | commit (saved : Bool)
  | publish (renamed : Bool)
  | finish (saved : Bool)

inductive Event
  -- models_install_handler
  | install (i : Nat) (modelId version clientRequestId : Bytes) (compatible : Bool) (listing : List Bytes)
  | create (i : Nat) (id : Bytes) (saved : Bool)
  -- The other handlers, up to what they do with the job they loaded.
  | resume (i : Nat) (id : Bytes)
  | retry (i : Nat) (id : Bytes)
  | pause (i : Nat) (id : Bytes)
  | cancel (i : Nat) (id : Bytes)
  | busy (i : Nat)
  | requeue (i : Nat) (saved : Bool)
  | rename (i : Nat) (id : Bytes) (renamed saved : Bool)
  | activate (i : Nat) (w : Nat)
  | revoke (i : Nat) (saved : Bool)
  | look (i : Nat)
  | signal (i : Nat)
  | await (i : Nat)
  -- install_worker
  | start (w : Nat) (freeBytes : Option Nat) (saved : Bool)
  | work (w : Nat) (action : Action)
  | clear (w : Nat)
  -- curl
  | deliver (curl : Nat) (content : Content)
  | exit (curl : Nat) (status : Int)
  -- The gateway stops, and starts again.
  | shutdown
  | restart (listing : List (Bytes × Bool))

def World.save (world : World) (id : Bytes) (job : InstallJob) (saved : Bool) : World :=
  if saved then { world with jobs := Function.update world.jobs id (some job) } else world

def World.handle (world : World) (i : Nat) (handler : Handler) : World :=
  { world with handlers := Function.update world.handlers i handler }

def World.work (world : World) (w : Nat) (worker : Worker) : World :=
  { world with workers := Function.update world.workers w (some worker) }

def World.hold (world : World) (w : Nat) (id : Bytes) (job : InstallJob) (stage : Stage) : World :=
  world.work w ⟨id, .holding job stage⟩

def World.place (world : World) (place : Place) (content : Option Content) : World :=
  { world with files := Function.update world.files place content }

def World.ack (world : World) (id : Bytes) : World :=
  { world with acked := id :: world.acked }

def Place.renamed (old new : Bytes) : Place → Place
  | .staged job name => if job = old then .staged new name else .staged job name
  | .home path => .home path

def World.renameDir (world : World) (old new : Bytes) : World :=
  { world with
    files := fun
      | .staged job name =>
        if job = new then world.files (.staged old name)
        else if job = old then none
        else world.files (.staged job name)
      | .home path => world.files (.home path)
    jobs := Function.update (Function.update world.jobs new (world.jobs old)) old none
    curls := fun c => (world.curls c).map fun curl => { curl with dest := curl.dest.renamed old new } }

-- (long long)bytes->num
def wholeBytes : Double → Nat
  | .finite _ magnitude => magnitude.units / one
  | _ => 0

def neededBytes (world : World) (id : Bytes) (artifact : Artifact) : Nat :=
  match artifact.bytes, artifact.stagingName with
  | some size, some name =>
    let have_ := ((world.files (.staged id name)).map fun content => content.bytes.length).getD 0
    wholeBytes size - have_
  | _, _ => 0

def reserve : Nat := 2 * 1024 * 1024 * 1024

def spaceMessage (needed free : Nat) : Bytes :=
  utf8 "Need " ++ decimal needed ++ utf8 " bytes (including a 2 GiB reserve), only " ++ decimal free ++ utf8 " available."

def curlMessage (rc : Int) (name : Bytes) : Bytes :=
  utf8 "curl exited " ++ decimalInt rc ++ utf8 " fetching " ++ name

def startWorker (gateway : Gateway) (world : World) (w : Nat) (id : Bytes) (freeBytes : Option Nat) (saved : Bool) :
    World :=
  match world.jobs id with
  | none => world.work w ⟨id, .gone⟩
  | some job =>
    match catalogFindModel gateway.catalog job.modelId.text job.version.text with
    | none => world.hold w id (job.erred "model_not_found" []) .failing
    | some entry =>
      let remaining := ((artifactsOf entry).map (neededBytes world id)).sum
      match freeBytes.filter (· < remaining + reserve) with
      | some free =>
        world.hold w id (job.erred "insufficient_space" (spaceMessage (remaining + reserve) free)) .failing
      | none => (world.save id (job.moved .downloading) saved).hold w id (job.moved .downloading) (.artifact 0)

structure Download where
  artifact : Artifact
  name : Bytes
  url : Bytes
  named : artifact.name = some name

def Artifact.download (artifact : Artifact) : Option Download :=
  match named : artifact.name, artifact.url, artifact.bytes, artifact.sha256 with
  | some name, some url, some _, some _ => some ⟨artifact, name, url, named⟩
  | _, _, _, _ => none

def Download.staged (download : Download) (id : Bytes) : Place :=
  .staged id (sanitizeStagingName download.name)

def Gateway.download (gateway : Gateway) (job : InstallJob) (i : Nat) : Option Download :=
  (gateway.artifacts job)[i]?.bind Artifact.download

def beginArtifact (world : World) (w : Nat) (id : Bytes) (job : InstallJob) (i : Nat) (download : Download) (c : Nat)
    (saved : Bool) : World :=
  if download.url = [] then world.hold w id (job.erred "artifact_not_downloadable" []) .failing
  else if world.stopSignal.isSome then world.hold w id job .stopping
  else if (world.files (download.staged id)).any download.artifact.sized then
    (world.save id (job.moved .verifying) saved).hold w id (job.moved .verifying) (.verifying i)
  else
    match world.curls c with
    | some _ => world
    | none =>
      { world with
        curls := Function.update world.curls c (some ⟨download.staged id, none⟩)
        curlPid := some c }.hold w id job (.fetching i c)

def reapCurl (world : World) (w : Nat) (id : Bytes) (job : InstallJob) (i : Nat) (download : Download) (rc : Int)
    (saved : Bool) : World :=
  if world.stopSignal.isSome then world.hold w id job .stopping
  else if rc ≠ 0 then world.hold w id (job.erred "download_failed" (curlMessage rc download.name)) .failing
  else if (world.files (download.staged id)).any download.artifact.sized then
    (world.save id (job.moved .verifying) saved).hold w id (job.moved .verifying) (.verifying i)
  else (world.place (download.staged id) none).hold w id (job.erred "size_mismatch" []) .failing

def hashStaged (world : World) (w : Nat) (id : Bytes) (job : InstallJob) (i : Nat) (download : Download)
    (readable : Bool) : World :=
  if readable && (world.files (download.staged id)).any fun content => download.artifact.sha256 == some content.hex then
    world.hold w id job (.hashed i)
  else (world.place (download.staged id) none).hold w id (job.erred "checksum_mismatch" []) .failing

def publishArtifact (gateway : Gateway) (world : World) (w : Nat) (id : Bytes) (job : InstallJob) (i : Nat)
    (artifact : Artifact) (renamed : Bool) : World :=
  match artifact.stagingName, artifact.installPath with
  | some name, some path =>
    match (world.files (.staged id name)).filter fun _ => renamed with
    | some content =>
      { (world.place (.staged id name) none).place (gateway.place path) (some content) with
        publishes := (id, artifact) :: world.publishes
        published := Function.update world.published (gateway.place path) (some (w, artifact)) }.hold w id job
          (.publishing (i + 1))
    | none => world.hold w id (job.erred "activation_failed" []) .failing
  | _, _ => world.hold w id (job.erred "activation_failed" []) .failing

def workerStep (gateway : Gateway) (world : World) (w : Nat) (id : Bytes) (job : InstallJob) (stage : Stage) :
    Action → World
  | .begin c saved =>
    match stage with
    | .artifact i =>
      match (gateway.artifacts job)[i]? with
      | none => world
      | some artifact =>
        match artifact.download with
        | some download => beginArtifact world w id job i download c saved
        | none => world.hold w id job .failing
    | _ => world
  | .reap saved =>
    match stage with
    | .fetching i c =>
      match gateway.download job i, (world.curls c).bind Curl.exit with
      | some download, some rc => reapCurl { world with curlPid := none } w id job i download rc saved
      | _, _ => world
    | _ => world
  | .hash readable =>
    match stage with
    | .verifying i =>
      match gateway.download job i with
      | some download => hashStaged world w id job i download readable
      | none => world
    | _ => world
  | .check =>
    match stage with
    | .hashed i => world.hold w id job (if world.stopSignal.isSome then .stopping else .artifact (i + 1))
    | _ => world
  | .stop saved =>
    match stage with
    | .stopping =>
      let state := if world.stopSignal = some .pause then InstallState.paused else .canceled
      (world.save id (job.moved state) saved).work w ⟨id, .clearing⟩
    | _ => world
  | .fail saved =>
    match stage with
    | .failing => (world.save id (job.moved .failed) saved).work w ⟨id, .clearing⟩
    | _ => world
  | .commit saved =>
    match stage with
    | .artifact i =>
      match (gateway.artifacts job)[i]? with
      | some _ => world
      | none =>
        { world.save id (job.moved .installing) saved with
          committed := w :: world.committed }.hold w id (job.moved .installing) (.publishing 0)
    | _ => world
  | .publish renamed =>
    match stage with
    | .publishing i =>
      match (gateway.artifacts job)[i]? with
      | some artifact => publishArtifact gateway world w id job i artifact renamed
      | none => world
    | _ => world
  | .finish saved =>
    match stage with
    | .publishing i =>
      match (gateway.artifacts job)[i]? with
      | some _ => world
      | none => (world.save id (job.moved .installed) saved).work w ⟨id, .clearing⟩
    | _ => world

-- install_clear_active
def clearActive (world : World) : World :=
  { world with
    active := none
    curlPid := none
    stopSignal := none }

-- install_jobs_repair_after_restart, entry by entry
def repairJob (world : World) (entry : Bytes × Bool) : World :=
  match world.jobs entry.1 with
  | some job => if job.state.working then world.save entry.1 (job.moved .paused) entry.2 else world
  | none => world

def restarted (world : World) : World :=
  { world with
    active := none
    stopSignal := none
    curlPid := none
    workers := fun _ => none
    handlers := fun _ => .idle }

def stoppable (stop : Stop) (state : InstallState) : Bool :=
  match state with
  | .queued | .downloading => true
  | .verifying => stop == .cancel
  | _ => false

def terminal : InstallState → Bool
  | .installed | .failed | .canceled => true
  | _ => false

def dedup (world : World) (job : InstallJob) (id : Bytes) : Bool :=
  (world.jobs id).any fun existing =>
    existing.modelId == job.modelId && existing.version == job.version && !terminal existing.state ||
      job.clientRequestId.text != [] && existing.clientRequestId == job.clientRequestId

def step (gateway : Gateway) (world : World) : Event → World
  | .install i modelId version clientRequestId compatible listing =>
    let job := newJob (pathCopy 80 modelId).1 (pathCopy 128 version).1 (pathCopy 128 clientRequestId).1
    match world.handlers i, catalogFindModel gateway.catalog job.modelId.text job.version.text with
    | .idle, some entry =>
      if compatible = false ∨ nativePack entry = true ∨ listing.any (dedup world job) = true then world
      else world.handle i (.wants (.create job.modelId job.version job.clientRequestId))
    | _, _ => world
  | .create i id saved =>
    match world.handlers i with
    | .admitted (.create modelId version clientRequestId) =>
      (world.save id (newJob modelId version clientRequestId) saved).handle i (if saved then .queued id else .idle)
    | _ => world
  | .resume i id =>
    match world.handlers i, world.jobs id with
    | .idle, some job => if job.state = .paused then world.handle i (.wants (.resume id job)) else world
    | _, _ => world
  | .retry i id =>
    match world.handlers i, world.jobs id with
    | .idle, some job => if job.state.over then world.handle i (.wants (.retry id job)) else world
    | _, _ => world
  | .pause i id =>
    match world.handlers i, world.jobs id with
    | .idle, some job =>
      if job.state = .paused then world else world.handle i (.looking id job.state .pause)
    | _, _ => world
  | .cancel i id =>
    match world.handlers i, world.jobs id with
    | .idle, some job =>
      if job.state = .canceled then world.ack id
      else if job.state = .paused then world.handle i (.revoking id job)
      else world.handle i (.looking id job.state .cancel)
    | _, _ => world
  | .busy i =>
    match world.handlers i with
    | .wants wish => world.handle i (if world.active.isSome then .idle else .admitted wish)
    | _ => world
  | .requeue i saved =>
    match world.handlers i with
    | .admitted (.resume id job) => (world.save id (job.moved .queued) saved).handle i (.queued id)
    | _ => world
  -- Nothing that reads the new directory between its rename and its record acts on the record it still holds.
  | .rename i id renamed saved =>
    match world.handlers i with
    | .admitted (.retry old job) =>
      ((if renamed then world.renameDir old id else world).save id (newJob job.modelId job.version (empty 128))
        saved).handle i (if saved then .queued id else .idle)
    | _ => world
  | .activate i w =>
    match world.handlers i, world.workers w with
    | .queued id, none =>
      ({ world with
        active := some id
        stopSignal := none }.work w ⟨id, .spawned⟩).handle i .idle
    | _, _ => world
  | .revoke i saved =>
    match world.handlers i with
    | .revoking id job => ((world.save id (job.moved .canceled) saved).ack id).handle i .idle
    | _ => world
  | .look i =>
    match world.handlers i with
    | .looking id state stop =>
      world.handle i (if world.active = some id ∧ stoppable stop state = true then .signaling id stop else .idle)
    | _ => world
  | .signal i =>
    match world.handlers i with
    | .signaling id stop =>
      { world with stopSignal := some stop }.handle i (if stop = Stop.cancel then .awaiting id else .idle)
    | _ => world
  -- The last look of install_await_state.
  | .await i =>
    match world.handlers i with
    | .awaiting id =>
      (if (world.jobs id).any fun job => job.state == .canceled then world.ack id else world).handle i .idle
    | _ => world
  | .start w freeBytes saved =>
    match world.workers w with
    | some ⟨id, .spawned⟩ => startWorker gateway world w id freeBytes saved
    | _ => world
  | .work w action =>
    match world.workers w with
    | some ⟨id, .holding job stage⟩ => workerStep gateway world w id job stage action
    | _ => world
  | .clear w =>
    match world.workers w with
    | some ⟨id, .clearing⟩ => (clearActive world).work w ⟨id, .gone⟩
    | _ => world
  -- Bytes are appended, or the file is replaced.
  | .deliver c content =>
    match world.curls c with
    | some ⟨dest, none⟩ => world.place dest (some content)
    | _ => world
  | .exit c status =>
    match world.curls c with
    | some ⟨dest, none⟩ => { world with curls := Function.update world.curls c (some ⟨dest, some status⟩) }
    | _ => world
  -- A stop of curl ends it sooner; nothing else waits for the worker.
  | .shutdown => if world.curlPid.isSome then { world with stopSignal := some .pause } else world
  | .restart listing => listing.foldl repairJob (restarted world)

end SamosaChat.Install
