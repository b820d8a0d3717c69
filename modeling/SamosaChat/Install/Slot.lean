import SamosaChat.Install.Machine
import SamosaChat.Lib.Runs

set_option autoImplicit false

namespace SamosaChat.Install

open Utf8 Json Function

-- From the thread's start until install_clear_active.
def Phase.running : Phase → Bool
  | .gone => false
  | _ => true

def Heeds (gateway : Gateway) : Phase → Prop
  | .spawned => True
  | .holding job (.artifact i) => (gateway.artifacts job)[i]?.isSome
  | .holding _ (.fetching _ _) | .holding _ (.verifying _) | .holding _ (.hashed _) | .holding _ .stopping => True
  | _ => False

-- The gateway with what its one flag and one pid leave out: whose stop is pending, whose worker started a curl, and the
-- job for which a handler is about to kill. `hits` and `struck` pair the job that was meant with the worker's.
structure Watched where
  world : World
  pending : List Bytes
  owner : Nat → Bytes
  killing : Nat → Option Bytes
  hits : List (Bytes × Bytes)
  struck : List (Bytes × Bytes)
  lost : List Bytes

def watching (files : Place → Option Content) : Watched where
  world := opened files
  pending := []
  owner := fun _ => []
  killing := fun _ => none
  hits := []
  struck := []
  lost := []

inductive Move
  | base (event : Event)
  -- The end of a pause or a cancel: the curl whose pid it reads is killed.
  | kill (i : Nat)

def Watched.reset (watched : Watched) : Watched :=
  { watched with
    pending := []
    lost := watched.lost ++ watched.pending }

def observe (watched : Watched) : Event → Watched
  | .activate i w =>
    match watched.world.handlers i, watched.world.workers w with
    | .queued _, none => watched.reset
    | _, _ => watched
  | .clear w =>
    match watched.world.workers w with
    | some ⟨_, .clearing⟩ => watched.reset
    | _ => watched
  | .signal i =>
    match watched.world.handlers i with
    | .signaling id _ =>
      { watched with
        pending := watched.pending ++ [id]
        killing := Function.update watched.killing i (some id) }
    | _ => watched
  | .work w (.stop _) =>
    match watched.world.workers w with
    | some ⟨id, .holding _ .stopping⟩ =>
      { watched with
        pending := []
        hits := watched.hits ++ watched.pending.map fun aimed => (aimed, id) }
    | _ => watched
  | .work w (.begin c _) =>
    match watched.world.workers w, watched.world.curls c with
    | some ⟨id, .holding _ (.artifact _)⟩, none => { watched with owner := Function.update watched.owner c id }
    | _, _ => watched
  | _ => watched

def strike (watched : Watched) (id : Bytes) (c : Nat) : Watched :=
  match watched.world.curls c with
  | some ⟨dest, none⟩ =>
    { watched with
      world := { watched.world with curls := Function.update watched.world.curls c (some ⟨dest, some (-1)⟩) }
      struck := watched.struck ++ [(id, watched.owner c)] }
  | _ => watched

def killCurl (watched : Watched) (i : Nat) : Watched :=
  let read := { watched with killing := Function.update watched.killing i none }
  match watched.killing i, watched.world.curlPid with
  | some id, some c => strike read id c
  | some _, none => read
  | none, _ => watched

def watch (gateway : Gateway) (watched : Watched) : Move → Watched
  | .base event => { observe watched event with world := step gateway watched.world event }
  | .kill i => killCurl watched i

structure SlotExclusive (watched : Watched) : Prop where
  single : ∀ w v worker other, watched.world.workers w = some worker → worker.phase.running = true →
    watched.world.workers v = some other → other.phase.running = true → w = v
  named : ∀ w worker, watched.world.workers w = some worker → worker.phase.running = true →
    watched.world.active = some worker.job
  apart : ∀ c d dest, watched.world.curls c = some ⟨dest, none⟩ → watched.world.curls d = some ⟨dest, none⟩ → c = d
  hits : ∀ hit ∈ watched.hits, hit.1 = hit.2
  struck : ∀ hit ∈ watched.struck, hit.1 = hit.2
  kept : watched.lost = []

def Continues (gateway : Gateway) (world : World) : Event → Prop
  | .start w freeBytes _ => ∀ id, world.workers w = some ⟨id, .spawned⟩ → ∃ job entry, world.jobs id = some job ∧
      catalogFindModel gateway.catalog job.modelId.text job.version.text = some entry ∧ artifactsOf entry ≠ [] ∧
        freeBytes.filter (· < ((artifactsOf entry).map (neededBytes world id)).sum + reserve) = none
  | .work w (.begin _ _) => ∀ id job i artifact, world.workers w = some ⟨id, .holding job (.artifact i)⟩ →
      (gateway.artifacts job)[i]? = some artifact → ∃ download, artifact.download = some download ∧ download.url ≠ []
  | .work w (.hash readable) => ∀ id job i download, world.workers w = some ⟨id, .holding job (.verifying i)⟩ →
      gateway.download job i = some download → readable = true ∧ ∃ content,
        world.files (download.staged id) = some content ∧ download.artifact.sha256 = some content.hex
  | _ => True

-- A job takes the slot when no worker runs; a stop comes while its job's worker still looks at the flag, which then does
-- not fail on its way there; a kill finds no curl or its job's. A run is one of one process.
def Undisturbed (gateway : Gateway) (watched : Watched) : Move → Prop
  | .base (.activate i _) => ∀ id, watched.world.handlers i = .queued id →
      ∀ v worker, watched.world.workers v = some worker → worker.phase.running = false
  | .base (.signal i) => ∀ id stop, watched.world.handlers i = .signaling id stop →
      ∃ w phase, watched.world.workers w = some ⟨id, phase⟩ ∧ Heeds gateway phase
  | .base (.restart _) => False
  | .base event => watched.pending ≠ [] → Continues gateway watched.world event
  | .kill i => ∀ id c, watched.killing i = some id → watched.world.curlPid = some c →
      ∀ w other job k, watched.world.workers w = some ⟨other, .holding job (.fetching k c)⟩ → other = id

structure SlotInv (gateway : Gateway) (watched : Watched) : Prop where
  single : ∀ w v worker other, watched.world.workers w = some worker → worker.phase.running = true →
    watched.world.workers v = some other → other.phase.running = true → w = v
  named : ∀ w worker, watched.world.workers w = some worker → worker.phase.running = true →
    watched.world.active = some worker.job
  curls : ∀ c curl, watched.world.curls c = some curl → curl.exit = none →
    ∃ w id job i, watched.world.workers w = some ⟨id, .holding job (.fetching i c)⟩
  pid : ∀ c, watched.world.curlPid = some c →
    ∃ w job i, watched.world.workers w = some ⟨watched.owner c, .holding job (.fetching i c)⟩
  flagged : watched.pending ≠ [] → watched.world.stopSignal.isSome = true
  aimed : ∀ id ∈ watched.pending, ∃ w phase, watched.world.workers w = some ⟨id, phase⟩ ∧ Heeds gateway phase
  hits : ∀ hit ∈ watched.hits, hit.1 = hit.2
  struck : ∀ hit ∈ watched.struck, hit.1 = hit.2
  kept : watched.lost = []

variable {gateway : Gateway} {watched : Watched}

variable {id : Bytes} {phase : Phase} {w : Nat} {world : World}

theorem heeds_running (heeds : Heeds gateway phase) : phase.running = true := by
  cases phase with
  | gone => exact heeds.elim
  | _ => rfl

theorem slot_exclusive (inv : SlotInv gateway watched) : SlotExclusive watched where
  single := inv.single
  named := inv.named
  hits := inv.hits
  struck := inv.struck
  kept := inv.kept
  apart c d dest first second := by
    obtain ⟨w, id, job, i, there⟩ := inv.curls c _ first rfl
    obtain ⟨v, other, job', k, there'⟩ := inv.curls d _ second rfl
    have same := inv.single w v _ _ there rfl there' rfl
    rw [same, there'] at there
    cases there
    rfl

structure SameSlot (before after : World) : Prop where
  workers : after.workers = before.workers
  active : after.active = before.active
  pid : after.curlPid = before.curlPid
  curls : ∀ c curl, after.curls c = some curl → curl.exit = none → ∃ old, before.curls c = some old ∧ old.exit = none
  flag : before.stopSignal.isSome = true → after.stopSignal.isSome = true

theorem slot_frame (inv : SlotInv gateway watched) (same : SameSlot watched.world world) :
    SlotInv gateway { watched with world := world } where
  single w v worker other there running there' running' :=
    inv.single w v worker other (same.workers ▸ there) running (same.workers ▸ there') running'
  named w worker there running := same.active.trans (inv.named w worker (same.workers ▸ there) running)
  curls c curl written open_ := by
    obtain ⟨old, before, unfinished⟩ := same.curls c curl written open_
    obtain ⟨w, id, job, i, there⟩ := inv.curls c old before unfinished
    exact ⟨w, id, job, i, same.workers ▸ there⟩
  pid c tracked := by
    obtain ⟨w, job, i, there⟩ := inv.pid c (same.pid ▸ tracked)
    exact ⟨w, job, i, same.workers ▸ there⟩
  flagged pending := same.flag (inv.flagged pending)
  aimed id member := by
    obtain ⟨w, phase, there, heeds⟩ := inv.aimed id member
    exact ⟨w, phase, same.workers ▸ there, heeds⟩
  hits := inv.hits
  struck := inv.struck
  kept := inv.kept

theorem slot_move (owner : Nat → Bytes) (inv : SlotInv gateway watched) {next : Phase}
    (there : watched.world.workers w = some ⟨id, phase⟩) (running : phase.running = true)
    (workers : world.workers = update watched.world.workers w (some ⟨id, next⟩)) (active : world.active = watched.world.active)
    (curls : ∀ c curl, world.curls c = some curl → curl.exit = none → ∃ job i, next = .holding job (.fetching i c))
    (pid : ∀ c, world.curlPid = some c → owner c = id ∧ ∃ job i, next = .holding job (.fetching i c))
    (flag : world.stopSignal = watched.world.stopSignal) (heeds : watched.pending ≠ [] → Heeds gateway next) :
    SlotInv gateway { watched with world := world, owner := owner } := by
  have here : world.workers w = some ⟨id, next⟩ := by rw [workers, update_self]
  have only : ∀ v worker, world.workers v = some worker → worker.phase.running = true → v = w := by
    intro v worker there' running'
    by_cases same : v = w
    · exact same
    · rw [workers, update_of_ne same] at there'
      exact inv.single v w _ _ there' running' there running
  constructor
  case single =>
    intro v u worker other there' running' there'' running''
    exact (only v worker there' running').trans (only u other there'' running'').symm
  case named =>
    intro v worker there' running'
    rw [only v worker there' running', here] at there'
    cases there'
    have named : watched.world.active = some id := inv.named w _ there running
    exact active.trans named
  case curls =>
    intro c curl written open_
    obtain ⟨job, i, fetching⟩ := curls c curl written open_
    exact ⟨w, id, job, i, fetching ▸ here⟩
  case pid =>
    intro c tracked
    obtain ⟨owned, job, i, fetching⟩ := pid c tracked
    refine ⟨w, job, i, ?_⟩
    rw [← fetching]
    dsimp only
    rw [owned]
    exact here
  case flagged =>
    intro pending
    rw [flag]
    exact inv.flagged pending
  case aimed =>
    intro other member
    obtain ⟨v, old, there', heeded⟩ := inv.aimed other member
    have same := inv.single v w _ _ there' (heeds_running heeded) there running
    rw [same, there] at there'
    cases there'
    exact ⟨w, next, here, heeds (List.ne_nil_of_mem member)⟩
  case hits => exact inv.hits
  case struck => exact inv.struck
  case kept => exact inv.kept

theorem slot_idle (inv : SlotInv gateway watched)
    (there : watched.world.workers w = some ⟨id, phase⟩) (running : phase.running = true)
    (idle : ∀ job i c, phase ≠ .holding job (.fetching i c)) :
    (∀ c curl, watched.world.curls c = some curl → curl.exit ≠ none) ∧ watched.world.curlPid = none := by
  constructor
  · intro c curl written open_
    obtain ⟨v, other, job, i, there'⟩ := inv.curls c curl written open_
    have same := inv.single v w _ _ there' rfl there running
    rw [same, there] at there'
    cases there'
    exact idle job i c rfl
  · cases tracked : watched.world.curlPid with
    | none => rfl
    | some c =>
      obtain ⟨v, job, i, there'⟩ := inv.pid c tracked
      have same := inv.single v w _ _ there' rfl there running
      rw [same, there] at there'
      cases there'
      exact absurd rfl (idle job i c)

theorem slot_advance (inv : SlotInv gateway watched) {next : Phase}
    (there : watched.world.workers w = some ⟨id, phase⟩) (running : phase.running = true)
    (idle : ∀ job i c, phase ≠ .holding job (.fetching i c))
    (workers : world.workers = update watched.world.workers w (some ⟨id, next⟩))
    (active : world.active = watched.world.active) (curls : world.curls = watched.world.curls)
    (pid : world.curlPid = watched.world.curlPid) (flag : world.stopSignal = watched.world.stopSignal)
    (heeds : watched.pending ≠ [] → Heeds gateway next) : SlotInv gateway { watched with world := world } := by
  obtain ⟨written, untracked⟩ := slot_idle inv there running idle
  refine slot_move watched.owner inv there running workers active ?_ ?_ flag heeds
  · intro c curl found open_
    exact absurd open_ (written c curl (curls ▸ found))
  · intro c tracked
    rw [pid, untracked] at tracked
    cases tracked

end SamosaChat.Install
