import SamosaChat.Lib.Runs
import SamosaChat.Lib.Utf8

set_option autoImplicit false

namespace SamosaChat.Chutni

open Utf8

inductive BuildState
  | queued
  | running
  | pausedUser
  | canceling
  | canceled
  | completed
  | completedPartial
  | failed
deriving DecidableEq

def BuildState.terminal : BuildState → Bool
  | .completed | .completedPartial | .failed | .canceled => true
  | _ => false

structure Record where
  job : Bytes
  state : BuildState
  generation : UInt64
deriving DecidableEq

structure Build where
  scope : Bytes
  job : Bytes
  generation : UInt64
deriving DecidableEq

def Build.record (build : Build) (state : BuildState) : Record where
  job := build.job
  state := state
  generation := build.generation

-- chutni_control
inductive Control
  | run
  | pause
  | cancel
deriving DecidableEq

inductive Stop
  | pause
  | cancel
deriving DecidableEq

def Stop.control : Stop → Control
  | .pause => .pause
  | .cancel => .cancel

def Stop.state : Stop → BuildState
  | .pause => .pausedUser
  | .cancel => .canceling

inductive Action
  | pause
  | cancel
  | resume
  | build
  | refresh
  | forget
deriving DecidableEq

inductive ScopeFile
  | scope
  | job
  | events
  | protocol
  | progress
deriving DecidableEq

def scopeFiles : List ScopeFile := [.scope, .job, .events, .protocol, .progress]

-- chutni_worker: before its first record, while the service runs, after that, and after its last look at the control.
inductive Phase
  | starting
  | scanning (signaled : Control)
  | serviced (signaled : Control) (ok : Bool)
  | enriched (signaled : Control) (ok : Bool)
  | concluded (final : BuildState)
  | closing
  | gone

def Phase.looks : Phase → Bool
  | .starting | .scanning _ | .serviced _ _ | .enriched _ _ => true
  | _ => false

def Phase.unfinished : Phase → Bool
  | .closing | .gone => false
  | _ => true

def Phase.running : Phase → Bool
  | .gone => false
  | _ => true

structure Worker where
  build : Build
  phase : Phase

inductive Handler
  | idle
  | stopping (build : Build) (stop : Stop)
  | recording (build : Build) (stop : Stop)
  | forgets (scope : Bytes)
  | unlinking (scope : Bytes) (files : List ScopeFile)
  | builds (scope : Bytes) (generation : UInt64)
  | claims (build : Build)
  | claimed (build : Build)
  | queued (build : Build)

-- The gateway, and what its one control leaves out: the scope that a stop named, whether the active build was named by
-- one, and the stops that took effect, paired with the scope they stopped. `reached` holds the record of a job that has
-- come to an end while no new build of its scope has begun; `missed` and `torn` the scopes where a stopped job ended in
-- another state, and where files were removed under a build.
structure World where
  jobs : Bytes → Option Record
  active : Option (Bytes × Bytes)
  control : Control
  workers : Nat → Option Worker
  handlers : Nat → Handler
  aim : Option Bytes
  asked : Bool
  stops : List (Bytes × Bytes)
  reached : Bytes → Option Record
  missed : List Bytes
  torn : List Bytes

-- chutni_repair_after_restart
def repaired (record : Record) : Record :=
  match record.state with
  | .queued | .running => { record with state := .pausedUser }
  | .canceling => { record with state := .canceled }
  | _ => record

def opened (jobs : Bytes → Option Record) : World where
  jobs scope := (jobs scope).map repaired
  active := none
  control := .run
  workers _ := none
  handlers _ := .idle
  aim := none
  asked := false
  stops := []
  reached scope := ((jobs scope).map repaired).filter fun record => record.state.terminal
  missed := []
  torn := []

inductive Event
  -- chutni_build_action, up to what it does with the record it loaded
  | request (i : Nat) (scope : Bytes) (action : Action) (requested : Option Bytes)
  | set (i : Nat)
  | record (i : Nat) (saved : Bool)
  | check (i : Nat)
  | unlink (i : Nat) (removed : Bool)
  | busy (i : Nat) (id : Bytes)
  -- A new scope, or a folder of a job: the caller has made up the build.
  | create (i : Nat) (build : Build)
  | claim (i : Nat)
  | abandon (i : Nat)
  | queue (i : Nat) (saved : Bool)
  | spawn (i : Nat) (w : Nat)
  -- chutni_worker
  | begin (w : Nat) (saved : Bool)
  | poll (w : Nat)
  | serve (w : Nat) (ok : Bool)
  | enrich (w : Nat) (store saved : Bool)
  | conclude (w : Nat) (published : Option Bool)
  | finish (w : Nat) (saved : Bool)
  | clear (w : Nat)
  | shutdown

def World.handle (world : World) (i : Nat) (handler : Handler) : World :=
  { world with handlers := Function.update world.handlers i handler }

def World.work (world : World) (w : Nat) (build : Build) (phase : Phase) : World :=
  { world with workers := Function.update world.workers w (some ⟨build, phase⟩) }

-- chutni_job_write
def World.write (world : World) (build : Build) (state : BuildState) (saved : Bool) : World :=
  if saved then { world with jobs := Function.update world.jobs build.scope (some (build.record state)) } else world

def World.building (world : World) (scope : Bytes) : Bool :=
  world.active.any fun active => active.1 == scope

def request (world : World) (i : Nat) (scope : Bytes) (action : Action) (requested : Option Bytes) : World :=
  match action, world.jobs scope with
  | .build, none => world.handle i (.builds scope 1)
  | _, none => world
  | .build, some record | .refresh, some record => world.handle i (.builds scope (record.generation + 1))
  | .forget, some _ => world.handle i (.forgets scope)
  | action, some record =>
    if requested.any (· ≠ record.job) then world
    else
      let build : Build := ⟨scope, record.job, record.generation⟩
      match action with
      | .pause => world.handle i (.stopping build .pause)
      | .cancel => world.handle i (.stopping build .cancel)
      | _ => if record.state = .pausedUser then world.handle i (.claims build) else world

def setControl (world : World) (i : Nat) (build : Build) (stop : Stop) : World :=
  { world with
    control := stop.control
    aim := some build.scope
    asked := world.asked || decide (world.active = some (build.scope, build.job)) }.handle i (.recording build stop)

def unlinkNext (world : World) (i : Nat) (scope : Bytes) (file : ScopeFile) (rest : List ScopeFile) : World :=
  { world with
    jobs := if file = ScopeFile.job then Function.update world.jobs scope none else world.jobs
    reached := if file = ScopeFile.job then Function.update world.reached scope none else world.reached
    torn := if world.building scope then world.torn ++ [scope] else world.torn }.handle i
      (if rest = [] then .idle else .unlinking scope rest)

-- chutni_worker_claim
def claim (world : World) (i : Nat) (build : Build) : World :=
  if world.active.isSome then world.handle i .idle
  else
    { world with
      active := some (build.scope, build.job)
      control := .run
      aim := none
      asked := false
      reached := Function.update world.reached build.scope none }.handle i (.claimed build)

-- chutni_worker_release_claim
def release (world : World) : World :=
  { world with active := none }

def World.obeys (world : World) (scope : Bytes) : World :=
  if world.control = .run then world
  else { world with stops := world.stops ++ (world.aim.map fun aim => (aim, scope)).toList }

def pollControl (world : World) (w : Nat) (build : Build) : World :=
  if world.control = .run then world else (world.obeys build.scope).work w build (.scanning world.control)

def finalState (control signaled : Control) (ok : Bool) (published : Option Bool) : BuildState :=
  if control = .pause ∨ signaled = .pause then .pausedUser
  else if control = .cancel then .canceled
  else
    match ok, published with
    | true, some true => .completedPartial
    | true, some false => .completed
    | _, _ => .failed

def enrichStore (world : World) (w : Nat) (build : Build) (signaled : Control) (ok store saved : Bool) : World :=
  (if ok && decide (world.control = .run) && store then world.write build .running saved else world).work w build
    (.enriched signaled ok)

def finishBuild (world : World) (w : Nat) (build : Build) (final : BuildState) (saved : Bool) : World :=
  { world.write build final saved with
    reached :=
      if saved && final.terminal then Function.update world.reached build.scope (some (build.record final))
      else world.reached }.work w build .closing

def stoppedRecord (record : Option Record) (job : Bytes) : Bool :=
  record.any fun found => found.job == job && (found.state == .pausedUser || found.state == .canceled)

def clearActive (world : World) (w : Nat) (build : Build) : World :=
  { world with
    active := if world.active = some (build.scope, build.job) then none else world.active
    asked := false
    missed :=
      if world.asked && !stoppedRecord (world.jobs build.scope) build.job then world.missed ++ [build.scope]
      else world.missed }.work w build .gone

def step (world : World) : Event → World
  | .request i scope action requested =>
    match world.handlers i with
    | .idle => request world i scope action requested
    | _ => world
  | .set i =>
    match world.handlers i with
    | .stopping build stop => setControl world i build stop
    | _ => world
  | .record i saved =>
    match world.handlers i with
    | .recording build stop => (world.write build stop.state saved).handle i .idle
    | _ => world
  | .check i =>
    match world.handlers i with
    | .forgets scope => world.handle i (if world.building scope then .idle else .unlinking scope scopeFiles)
    | _ => world
  | .unlink i removed =>
    match world.handlers i with
    | .unlinking scope (file :: rest) =>
      if removed then unlinkNext world i scope file rest else world.handle i .idle
    | _ => world
  | .busy i id =>
    match world.handlers i with
    | .builds scope generation =>
      world.handle i (if world.active.isSome then .idle else .claims ⟨scope, id, generation⟩)
    | _ => world
  | .create i build =>
    match world.handlers i with
    | .idle => world.handle i (.claims build)
    | _ => world
  | .claim i =>
    match world.handlers i with
    | .claims build => claim world i build
    | _ => world
  | .abandon i =>
    match world.handlers i with
    | .claimed _ | .queued _ => (release world).handle i .idle
    | _ => world
  | .queue i saved =>
    match world.handlers i with
    | .claimed build => (world.write build .queued saved).handle i (.queued build)
    | _ => world
  | .spawn i w =>
    match world.handlers i, world.workers w with
    | .queued build, none => (world.work w build .starting).handle i .idle
    | _, _ => world
  | .begin w saved =>
    match world.workers w with
    | some ⟨build, .starting⟩ => (world.write build .running saved).work w build (.scanning .run)
    | _ => world
  | .poll w =>
    match world.workers w with
    | some ⟨build, .scanning .run⟩ => pollControl world w build
    | _ => world
  | .serve w ok =>
    match world.workers w with
    | some ⟨build, .scanning signaled⟩ => world.work w build (.serviced signaled ok)
    | _ => world
  | .enrich w store saved =>
    match world.workers w with
    | some ⟨build, .serviced signaled ok⟩ => enrichStore world w build signaled ok store saved
    | _ => world
  | .conclude w published =>
    match world.workers w with
    | some ⟨build, .enriched signaled ok⟩ =>
      (world.obeys build.scope).work w build (.concluded (finalState world.control signaled ok published))
    | _ => world
  | .finish w saved =>
    match world.workers w with
    | some ⟨build, .concluded final⟩ => finishBuild world w build final saved
    | _ => world
  | .clear w =>
    match world.workers w with
    | some ⟨build, .closing⟩ => clearActive world w build
    | _ => world
  | .shutdown =>
    { world with
      control := .cancel
      aim := none }

def run (jobs : Bytes → Option Record) (events : List Event) : World :=
  events.foldl step (opened jobs)

-- A stop stops a build of its scope only; a job that has come to an end keeps its record; a job that was stopped while
-- it ran ends paused or canceled, and no record is left canceling; one worker runs; forget leaves a build's files alone.
structure Scoped (world : World) : Prop where
  aimed : ∀ stop ∈ world.stops, stop.1 = stop.2
  kept : ∀ scope record, world.reached scope = some record → world.jobs scope = some record
  ended : world.missed = []
  settled : world.active = none → ∀ scope record, world.jobs scope = some record → record.state ≠ .canceling
  single : ∀ w v worker other, world.workers w = some worker → worker.phase.running = true →
    world.workers v = some other → other.phase.running = true → w = v
  whole : world.torn = []

-- A stop is stored while a worker of its job still looks at the control, and recorded before that worker has written its
-- last record, which is then written; files are removed while no build of their scope is active.
def Undisturbed (world : World) : Event → Prop
  | .set i => ∀ build stop, world.handlers i = .stopping build stop → ∃ w worker, world.workers w = some worker ∧
      worker.build.scope = build.scope ∧ worker.build.job = build.job ∧ worker.phase.looks = true
  | .record i _ => ∀ build stop, world.handlers i = .recording build stop → ∃ w worker, world.workers w = some worker ∧
      worker.build.scope = build.scope ∧ worker.build.job = build.job ∧ worker.phase.unfinished = true
  | .finish w saved => ∀ build phase, world.workers w = some ⟨build, phase⟩ →
      (world.asked = true ∨ (world.jobs build.scope).any (·.state == .canceling) = true) → saved = true
  | .unlink i _ => ∀ scope files, world.handlers i = .unlinking scope files → world.building scope = false
  | _ => True

end SamosaChat.Chutni
