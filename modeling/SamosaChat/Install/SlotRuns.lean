import SamosaChat.Install.Slot
import SamosaChat.Install.Runs

set_option autoImplicit false

namespace SamosaChat.Install

open Utf8 Text Json Runs Function

variable {gateway : Gateway} {watched : Watched}

section Worker

variable {w : Nat} {id : Bytes} {job : InstallJob} {stage : Stage}

theorem save_same (world : World) (id : Bytes) (job : InstallJob) (saved : Bool) :
    (world.save id job saved).workers = world.workers ∧ (world.save id job saved).active = world.active ∧
      (world.save id job saved).curls = world.curls ∧ (world.save id job saved).curlPid = world.curlPid ∧
        (world.save id job saved).stopSignal = world.stopSignal := by
  cases saved <;> exact ⟨rfl, rfl, rfl, rfl, rfl⟩

variable {phase : Phase}

theorem slot_hold (inv : SlotInv gateway watched) (there : watched.world.workers w = some ⟨id, phase⟩)
    (running : phase.running = true) (idle : ∀ job i c, phase ≠ .holding job (.fetching i c)) (record : InstallJob)
    (saved : Bool) (stage : Stage) (heeds : watched.pending ≠ [] → Heeds gateway (.holding job stage)) :
    SlotInv gateway { watched with world := (watched.world.save id record saved).hold w id job stage } := by
  obtain ⟨workers, active, curls, pid, flag⟩ := save_same watched.world id record saved
  refine slot_advance inv there running idle ?_ active curls pid flag heeds
  change update (watched.world.save id record saved).workers w _ = _
  rw [workers]

theorem unpending (inv : SlotInv gateway watched) (there : watched.world.workers w = some ⟨id, phase⟩)
    (running : phase.running = true) (deaf : ¬ Heeds gateway phase) : watched.pending = [] := by
  cases pending : watched.pending with
  | nil => rfl
  | cons aimed rest =>
    obtain ⟨v, old, there', heeds⟩ := inv.aimed aimed (by simp [pending])
    have same := inv.single v w _ _ there' (heeds_running heeds) there running
    rw [same, there] at there'
    cases there'
    exact absurd heeds deaf

theorem slot_start (inv : SlotInv gateway watched) (there : watched.world.workers w = some ⟨id, .spawned⟩)
    (freeBytes : Option Nat) (saved : Bool)
    (continues : watched.pending ≠ [] → Continues gateway watched.world (.start w freeBytes saved)) :
    SlotInv gateway { watched with world := startWorker gateway watched.world w id freeBytes saved } := by
  have idle : ∀ job i c, Phase.spawned ≠ .holding job (.fetching i c) := nofun
  unfold startWorker
  cases recorded : watched.world.jobs id with
  | none =>
    refine slot_advance inv there rfl idle rfl rfl rfl rfl rfl fun pending => ?_
    obtain ⟨_, _, loads, _⟩ := continues pending id there
    rw [recorded] at loads
    cases loads
  | some job =>
    dsimp only
    cases listed : catalogFindModel gateway.catalog job.modelId.text job.version.text with
    | none =>
      refine slot_hold inv there rfl idle job false .failing fun pending => ?_
      obtain ⟨_, _, loads, found, _⟩ := continues pending id there
      rw [recorded] at loads
      cases loads
      rw [listed] at found
      cases found
    | some entry =>
      dsimp only
      split
      · rename_i free short
        refine slot_hold inv there rfl idle job false .failing fun pending => ?_
        obtain ⟨_, _, loads, found, _, space⟩ := continues pending id there
        rw [recorded] at loads
        cases loads
        rw [listed] at found
        cases found
        rw [short] at space
        cases space
      · refine slot_hold inv there rfl idle _ saved _ fun pending => ?_
        obtain ⟨_, _, loads, found, some_, _⟩ := continues pending id there
        rw [recorded] at loads
        cases loads
        rw [listed] at found
        cases found
        change (gateway.artifacts job)[0]?.isSome
        rw [Gateway.artifacts, listed]
        cases artifacts : artifactsOf entry with
        | nil => exact absurd artifacts some_
        | cons artifact rest => simp [artifacts]

theorem observed_begin {i : Nat} (there : watched.world.workers w = some ⟨id, .holding job (.artifact i)⟩) (c : Nat) (saved : Bool) :
    ∃ owner, observe watched (.work w (.begin c saved)) = { watched with owner := owner } ∧
      (watched.world.curls c = none → owner c = id) := by
  simp only [observe, there]
  cases watched.world.curls c with
  | none => exact ⟨_, rfl, fun _ => update_self ..⟩
  | some curl => exact ⟨watched.owner, rfl, nofun⟩

theorem slot_own (owner : Nat → Bytes) (inv : SlotInv gateway watched)
    (there : watched.world.workers w = some ⟨id, phase⟩) (running : phase.running = true)
    (idle : ∀ job i c, phase ≠ .holding job (.fetching i c)) : SlotInv gateway { watched with owner := owner } :=
  { inv with
    pid := fun c tracked => by
      rw [(slot_idle inv there running idle).2] at tracked
      cases tracked }

section Worker

variable (inv : SlotInv gateway watched)
include inv

variable {i : Nat}

theorem slot_begin (there : watched.world.workers w = some ⟨id, .holding job (.artifact i)⟩) (c : Nat) (saved : Bool)
    (continues : watched.pending ≠ [] → Continues gateway watched.world (.work w (.begin c saved))) :
    SlotInv gateway { observe watched (.work w (.begin c saved)) with
      world := workerStep gateway watched.world w id job (.artifact i) (.begin c saved) } := by
  have idle : ∀ job' k c, Phase.holding job (.artifact i) ≠ .holding job' (.fetching k c) := nofun
  obtain ⟨owner, observed, owned⟩ := observed_begin there c saved
  rw [observed]
  have began := slot_own owner inv there rfl idle
  simp only [workerStep]
  cases listed : (gateway.artifacts job)[i]? with
  | none => exact began
  | some artifact =>
    dsimp only
    cases ready : artifact.download with
    | none =>
      refine slot_hold began there rfl idle job false .failing fun pending => ?_
      obtain ⟨_, complete, _⟩ := continues pending id job i artifact there listed
      rw [ready] at complete
      cases complete
    | some download =>
      dsimp only
      unfold beginArtifact
      split
      · rename_i unreachable_
        refine slot_hold began there rfl idle job false .failing fun pending => ?_
        obtain ⟨_, complete, reachable⟩ := continues pending id job i artifact there listed
        rw [ready] at complete
        cases complete
        exact absurd unreachable_ reachable
      split
      · exact slot_hold began there rfl idle job false .stopping fun _ => trivial
      split
      · exact slot_hold began there rfl idle _ saved _ fun _ => trivial
      cases fresh : watched.world.curls c with
      | some curl => exact began
      | none =>
        have written := (slot_idle inv there rfl idle).1
        refine slot_move owner inv there rfl rfl rfl ?_ ?_ rfl fun _ => trivial
        · intro d curl found open_
          by_cases same : d = c
          · rw [same]
            exact ⟨job, i, rfl⟩
          · have before : watched.world.curls d = some curl := by
              rw [← found]
              exact (update_of_ne same ..).symm
            exact absurd open_ (written d curl before)
        · intro d tracked
          cases tracked
          exact ⟨owned fresh, job, i, rfl⟩

theorem slot_reap {c : Nat} (there : watched.world.workers w = some ⟨id, .holding job (.fetching i c)⟩) (saved : Bool) :
    SlotInv gateway { watched with
      world := workerStep gateway watched.world w id job (.fetching i c) (.reap saved) } := by
  simp only [workerStep]
  cases gateway.download job i with
  | none => exact inv
  | some download =>
    cases exited : (watched.world.curls c).bind Curl.exit with
    | none => exact inv
    | some rc =>
      dsimp only
      -- The curl that was written to is the one that has exited.
      have written : ∀ d curl, watched.world.curls d = some curl → curl.exit ≠ none := by
        intro d curl found open_
        obtain ⟨v, other, job', k, there'⟩ := inv.curls d curl found open_
        have same := inv.single v w _ _ there' rfl there rfl
        rw [same, there] at there'
        cases there'
        rw [found] at exited
        change curl.exit = some rc at exited
        rw [open_] at exited
        cases exited
      have moves : ∀ (record job' : InstallJob) (kept : Bool) (stage : Stage) (files : Place → Option Content),
          (watched.pending ≠ [] → Heeds gateway (.holding job' stage)) →
            SlotInv gateway { watched with
              world := ({ watched.world with curlPid := none, files := files }.save id record kept).hold w id job' stage } := by
        intro record job' kept stage files heeds
        obtain ⟨workers, active, curls, pid, flag⟩ :=
          save_same { watched.world with curlPid := none, files := files } id record kept
        refine slot_move watched.owner inv there rfl ?_ active ?_ ?_ flag heeds
        · change update (World.save _ id record kept).workers w _ = _
          rw [workers]
        · intro d curl found open_
          change (World.save _ id record kept).curls d = some curl at found
          rw [curls] at found
          exact absurd open_ (written d curl found)
        · intro d tracked
          change (World.save _ id record kept).curlPid = some d at tracked
          rw [pid] at tracked
          cases tracked
      have unflagged : ¬ watched.world.stopSignal.isSome = true → watched.pending = [] := by
        intro clear
        by_contra pending
        exact clear (inv.flagged pending)
      unfold reapCurl
      by_cases stopping : watched.world.stopSignal.isSome
      · rw [if_pos stopping]
        exact moves job job false .stopping watched.world.files fun _ => trivial
      rw [if_neg stopping]
      split
      · exact moves job _ false .failing watched.world.files fun pending => absurd (unflagged stopping) pending
      split
      · exact moves _ _ saved _ watched.world.files fun _ => trivial
      · exact moves job _ false .failing _ fun pending => absurd (unflagged stopping) pending

theorem slot_hash (there : watched.world.workers w = some ⟨id, .holding job (.verifying i)⟩) (readable : Bool)
    (continues : watched.pending ≠ [] → Continues gateway watched.world (.work w (.hash readable))) :
    SlotInv gateway { watched with
      world := workerStep gateway watched.world w id job (.verifying i) (.hash readable) } := by
  have idle : ∀ job' k c, Phase.holding job (.verifying i) ≠ .holding job' (.fetching k c) := nofun
  simp only [workerStep]
  cases ready : gateway.download job i with
  | none => exact inv
  | some download =>
    dsimp only
    unfold hashStaged
    split
    · exact slot_hold inv there rfl idle job false _ fun _ => trivial
    · rename_i mismatch
      refine slot_advance inv there rfl idle rfl rfl rfl rfl rfl fun pending => ?_
      obtain ⟨read, content, staged, named⟩ := continues pending id job i download there ready
      exact absurd (by simp [read, staged, named]) mismatch

theorem slot_check (there : watched.world.workers w = some ⟨id, .holding job (.hashed i)⟩) :
    SlotInv gateway { watched with world := workerStep gateway watched.world w id job (.hashed i) .check } := by
  have idle : ∀ job' k c, Phase.holding job (.hashed i) ≠ .holding job' (.fetching k c) := nofun
  simp only [workerStep]
  refine slot_hold inv there rfl idle job false _ fun pending => ?_
  rw [if_pos (inv.flagged pending)]
  trivial

theorem slot_stop (there : watched.world.workers w = some ⟨id, .holding job .stopping⟩) (saved : Bool) :
    SlotInv gateway { observe watched (.work w (.stop saved)) with
      world := workerStep gateway watched.world w id job .stopping (.stop saved) } := by
  have idle : ∀ job' k c, Phase.holding job .stopping ≠ .holding job' (.fetching k c) := nofun
  have heard : SlotInv gateway { watched with
      pending := []
      hits := watched.hits ++ watched.pending.map fun aimed => (aimed, id) } := by
    refine { inv with flagged := fun none => absurd rfl none, aimed := nofun, hits := fun hit member => ?_ }
    rcases List.mem_append.mp member with old | new
    · exact inv.hits hit old
    · obtain ⟨aimed, pending, rfl⟩ := List.mem_map.mp new
      obtain ⟨v, phase, there', heeds⟩ := inv.aimed aimed pending
      have same := inv.single v w _ _ there' (heeds_running heeds) there rfl
      rw [same, there] at there'
      cases there'
      rfl
  simp only [workerStep, observe, there]
  generalize (if watched.world.stopSignal = some .pause then InstallState.paused else .canceled) = state
  obtain ⟨workers, active, curls, pid, flag⟩ := save_same watched.world id (job.moved state) saved
  have cleared : ((watched.world.save id (job.moved state) saved).work w ⟨id, .clearing⟩).workers =
      update watched.world.workers w (some ⟨id, .clearing⟩) := by
    change update (watched.world.save id (job.moved state) saved).workers w _ = _
    rw [workers]
  exact slot_advance heard there rfl idle cleared active curls pid flag fun none => absurd rfl none

theorem slot_deaf (record : InstallJob) (saved : Bool) (next : Phase) {world : World}
    (there : watched.world.workers w = some ⟨id, .holding job stage⟩) (deaf : ¬ Heeds gateway (.holding job stage))
    (idle : ∀ i c, stage ≠ .fetching i c)
    (workers : world.workers = update (watched.world.save id record saved).workers w (some ⟨id, next⟩))
    (active : world.active = (watched.world.save id record saved).active)
    (curls : world.curls = (watched.world.save id record saved).curls)
    (pid : world.curlPid = (watched.world.save id record saved).curlPid)
    (flag : world.stopSignal = (watched.world.save id record saved).stopSignal) :
    SlotInv gateway { watched with world := world } := by
  obtain ⟨workers', active', curls', pid', flag'⟩ := save_same watched.world id record saved
  refine slot_advance inv there rfl ?_ (by rw [workers, workers']) (active.trans active') (curls.trans curls')
    (pid.trans pid') (flag.trans flag') fun pending => ?_
  · rintro job' i c ⟨⟩
    exact idle i c rfl
  · exact absurd (unpending inv there rfl deaf) pending

theorem slot_fail (there : watched.world.workers w = some ⟨id, .holding job .failing⟩) (saved : Bool) :
    SlotInv gateway { watched with world := workerStep gateway watched.world w id job .failing (.fail saved) } :=
  slot_deaf inv (job.moved .failed) saved .clearing there (fun deaf => deaf) nofun rfl rfl rfl rfl rfl

theorem slot_commit (there : watched.world.workers w = some ⟨id, .holding job (.artifact i)⟩) (saved : Bool) :
    SlotInv gateway { watched with world := workerStep gateway watched.world w id job (.artifact i) (.commit saved) } := by
  simp only [workerStep]
  cases listed : (gateway.artifacts job)[i]? with
  | some artifact => exact inv
  | none =>
    refine slot_deaf inv (job.moved .installing) saved _ there ?_ (fun _ _ same => by cases same) rfl rfl rfl rfl rfl
    change ¬ (gateway.artifacts job)[i]?.isSome = true
    rw [listed]
    decide

theorem slot_publish (there : watched.world.workers w = some ⟨id, .holding job (.publishing i)⟩) (renamed : Bool) :
    SlotInv gateway { watched with
      world := workerStep gateway watched.world w id job (.publishing i) (.publish renamed) } := by
  have holds : ∀ (world : World) (job' : InstallJob) (next : Stage), world.workers = watched.world.workers →
      world.active = watched.world.active → world.curls = watched.world.curls → world.curlPid = watched.world.curlPid →
        world.stopSignal = watched.world.stopSignal →
          SlotInv gateway { watched with world := world.hold w id job' next } := by
    intro world job' next workers active curls pid flag
    refine slot_deaf inv job false (.holding job' next) there (fun deaf => deaf) nofun ?_ active curls pid flag
    change update world.workers w _ = _
    rw [workers]
    rfl
  simp only [workerStep]
  cases (gateway.artifacts job)[i]? with
  | none => exact inv
  | some artifact =>
    dsimp only
    unfold publishArtifact
    split
    · split
      · exact holds _ _ _ rfl rfl rfl rfl rfl
      · exact holds _ _ _ rfl rfl rfl rfl rfl
    · exact holds _ _ _ rfl rfl rfl rfl rfl

theorem slot_finish (there : watched.world.workers w = some ⟨id, .holding job (.publishing i)⟩) (saved : Bool) :
    SlotInv gateway { watched with
      world := workerStep gateway watched.world w id job (.publishing i) (.finish saved) } := by
  simp only [workerStep]
  cases (gateway.artifacts job)[i]? with
  | some artifact => exact inv
  | none => exact slot_deaf inv (job.moved .installed) saved .clearing there (fun deaf => deaf) (fun _ _ same => by cases same) rfl rfl rfl rfl rfl

theorem slot_work (there : watched.world.workers w = some ⟨id, .holding job stage⟩)
    (action : Action) (continues : watched.pending ≠ [] → Continues gateway watched.world (.work w action)) :
    SlotInv gateway { observe watched (.work w action) with
      world := workerStep gateway watched.world w id job stage action } := by
  cases action with
  | begin c saved =>
    cases stage with
    | artifact i => exact slot_begin inv there c saved continues
    | _ => simpa only [observe, there, workerStep] using inv
  | reap saved =>
    cases stage with
    | fetching i c => exact slot_reap inv there saved
    | _ => exact inv
  | hash readable =>
    cases stage with
    | verifying i => exact slot_hash inv there readable continues
    | _ => exact inv
  | check =>
    cases stage with
    | hashed i => exact slot_check inv there
    | _ => exact inv
  | stop saved =>
    cases stage with
    | stopping => exact slot_stop inv there saved
    | _ => simpa only [observe, there, workerStep] using inv
  | fail saved =>
    cases stage with
    | failing => exact slot_fail inv there saved
    | _ => exact inv
  | commit saved =>
    cases stage with
    | artifact i => exact slot_commit inv there saved
    | _ => exact inv
  | publish renamed =>
    cases stage with
    | publishing i => exact slot_publish inv there renamed
    | _ => exact inv
  | finish saved =>
    cases stage with
    | publishing i => exact slot_finish inv there saved
    | _ => exact inv

end Worker

end Worker

section Requests

theorem same_refl (world : World) : SameSlot world world :=
  ⟨rfl, rfl, rfl, fun _ curl found open_ => ⟨curl, found, open_⟩, id⟩

theorem same_handle (world : World) (i : Nat) (handler : Handler) : SameSlot world (world.handle i handler) :=
  ⟨rfl, rfl, rfl, fun _ curl found open_ => ⟨curl, found, open_⟩, id⟩

theorem same_ack (world : World) (id : Bytes) : SameSlot world (world.ack id) :=
  ⟨rfl, rfl, rfl, fun _ curl found open_ => ⟨curl, found, open_⟩, fun flag => flag⟩

theorem same_save (world : World) (id : Bytes) (job : InstallJob) (saved : Bool) : SameSlot world (world.save id job saved) := by
  cases saved <;> exact ⟨rfl, rfl, rfl, fun _ curl found open_ => ⟨curl, found, open_⟩, fun flag => flag⟩

theorem same_rename (world : World) (old new : Bytes) : SameSlot world (world.renameDir old new) := by
  refine ⟨rfl, rfl, rfl, fun c curl found open_ => ?_, fun flag => flag⟩
  obtain ⟨before, there, rfl⟩ := Option.map_eq_some_iff.mp found
  exact ⟨before, there, open_⟩

theorem same_trans {a b c : World} (first : SameSlot a b) (second : SameSlot b c) : SameSlot a c where
  workers := second.workers.trans first.workers
  active := second.active.trans first.active
  pid := second.pid.trans first.pid
  flag := second.flag ∘ first.flag
  curls d curl found open_ := by
    obtain ⟨middle, there, unfinished⟩ := second.curls d curl found open_
    exact first.curls d middle there unfinished

def Event.asks : Event → Bool
  | .install .. | .create .. | .resume .. | .retry .. | .pause .. | .cancel .. | .busy .. | .requeue .. | .rename ..
  | .revoke .. | .look .. | .await .. => true
  | _ => false

theorem asks_same (world : World) {event : Event} (asks : event.asks = true) : SameSlot world (step gateway world event) := by
  cases event with
  | install i modelId version clientRequestId compatible listing =>
    simp only [step]
    split
    · split
      · exact same_refl world
      · exact same_handle ..
    · exact same_refl world
  | create i id saved =>
    simp only [step]
    split
    · exact same_trans (same_save ..) (same_handle ..)
    · exact same_refl world
  | resume i id =>
    simp only [step]
    split
    · split
      · exact same_handle ..
      · exact same_refl world
    · exact same_refl world
  | retry i id =>
    simp only [step]
    split
    · split
      · exact same_handle ..
      · exact same_refl world
    · exact same_refl world
  | pause i id =>
    simp only [step]
    split
    · split
      · exact same_refl world
      · exact same_handle ..
    · exact same_refl world
  | cancel i id =>
    simp only [step]
    split
    · split
      · exact same_ack ..
      · split <;> exact same_handle ..
    · exact same_refl world
  | busy i =>
    simp only [step]
    split
    · exact same_handle ..
    · exact same_refl world
  | requeue i saved =>
    simp only [step]
    split
    · exact same_trans (same_save ..) (same_handle ..)
    · exact same_refl world
  | rename i id renamed saved =>
    simp only [step]
    split
    · refine same_trans (same_trans ?_ (same_save ..)) (same_handle ..)
      cases renamed with
      | true => exact same_rename ..
      | false => exact same_refl world
    · exact same_refl world
  | revoke i saved =>
    simp only [step]
    split
    · exact same_trans (same_trans (same_save ..) (same_ack ..)) (same_handle ..)
    · exact same_refl world
  | look i =>
    simp only [step]
    split
    · exact same_handle ..
    · exact same_refl world
  | await i =>
    simp only [step]
    split
    · refine same_trans ?_ (same_handle ..)
      split
      · exact same_ack ..
      · exact same_refl world
    · exact same_refl world
  | _ => cases asks

theorem asks_unobserved {event : Event} (asks : event.asks = true) : observe watched event = watched := by
  cases event with
  | activate | clear | signal | work => cases asks
  | _ => rfl

theorem slot_activate (inv : SlotInv gateway watched) (i w : Nat)
    (undisturbed : Undisturbed gateway watched (.base (.activate i w))) :
    SlotInv gateway (watch gateway watched (.base (.activate i w))) := by
  cases queued : watched.world.handlers i with
  | queued id =>
    cases free : watched.world.workers w with
    | some worker => simpa only [watch, step, observe, queued, free] using inv
    | none =>
    simp only [watch, step, observe, queued, free]
    have gone := undisturbed id queued
    have unpending : watched.pending = [] := by
      cases pending : watched.pending with
      | nil => rfl
      | cons aimed rest =>
        obtain ⟨v, phase, there, heeds⟩ := inv.aimed aimed (by simp [pending])
        have running := heeds_running heeds
        rw [show phase.running = false from gone v _ there] at running
        cases running
    have only : ∀ v worker, update watched.world.workers w (some ⟨id, .spawned⟩) v = some worker →
        worker.phase.running = true → v = w ∧ worker.job = id := by
      intro v worker there running
      rcases update_cases there with ⟨same, ⟨⟩⟩ | ⟨_, there⟩
      · exact ⟨same, rfl⟩
      · rw [gone v worker there] at running
        cases running
    have written : ∀ c curl, watched.world.curls c = some curl → curl.exit ≠ none := by
      intro c curl found open_
      obtain ⟨v, other, job, k, there⟩ := inv.curls c curl found open_
      cases gone v _ there
    constructor
    case single =>
      intro v u worker other there running there' running'
      exact (only v worker there running).1.trans (only u other there' running').1.symm
    case named =>
      intro v worker there running
      rw [(only v worker there running).2]
      rfl
    case curls => exact fun c curl found open_ => absurd open_ (written c curl found)
    case pid =>
      intro c tracked
      obtain ⟨v, job, k, there⟩ := inv.pid c tracked
      cases gone v _ there
    case flagged => exact fun none => absurd rfl none
    case aimed => exact fun _ inside => by cases inside
    case hits => exact inv.hits
    case struck => exact inv.struck
    case kept =>
      change watched.lost ++ watched.pending = []
      rw [inv.kept, unpending]
      rfl
  | _ => simpa only [watch, step, observe, queued] using inv

theorem slot_signal (inv : SlotInv gateway watched) (i : Nat) (undisturbed : Undisturbed gateway watched (.base (.signal i))) :
    SlotInv gateway (watch gateway watched (.base (.signal i))) := by
  cases signaling : watched.world.handlers i with
  | signaling id stop =>
    simp only [watch, step, observe, signaling]
    refine { inv with flagged := fun _ => rfl, aimed := fun aimed member => ?_ }
    rcases List.mem_append.mp member with old | new
    · exact inv.aimed aimed old
    · rw [List.mem_singleton.mp new]
      exact undisturbed id stop signaling
  | _ => simpa only [watch, step, observe, signaling] using inv

theorem slot_clear (inv : SlotInv gateway watched) (w : Nat) : SlotInv gateway (watch gateway watched (.base (.clear w))) := by
  by_cases clearing : ∃ id, watched.world.workers w = some ⟨id, .clearing⟩
  · obtain ⟨id, there⟩ := clearing
    simp only [watch, step, observe, there]
    have unpending := unpending inv there rfl (fun deaf => deaf)
    have gone : ∀ v worker, update watched.world.workers w (some ⟨id, .gone⟩) v = some worker →
        worker.phase.running = false := by
      intro v worker there'
      rcases update_cases there' with ⟨_, ⟨⟩⟩ | ⟨same, there'⟩
      · rfl
      · cases running : worker.phase.running with
        | false => rfl
        | true => exact absurd (inv.single v w _ _ there' running there rfl) same
    have idle := slot_idle inv there rfl fun _ _ _ same => by cases same
    constructor
    case single =>
      intro v _ worker _ there' running
      rw [gone v worker there'] at running
      cases running
    case named =>
      intro v worker there' running
      rw [gone v worker there'] at running
      cases running
    case curls => exact fun c curl found open_ => absurd open_ (idle.1 c curl found)
    case pid => exact fun _ tracked => by cases tracked
    case flagged => exact fun none => absurd rfl none
    case aimed => exact fun _ inside => by cases inside
    case hits => exact inv.hits
    case struck => exact inv.struck
    case kept =>
      change watched.lost ++ watched.pending = []
      rw [inv.kept, unpending]
      rfl
  · cases there : watched.world.workers w with
    | none => simpa only [watch, step, observe, there] using inv
    | some worker =>
      obtain ⟨id, phase⟩ := worker
      cases phase with
      | clearing => exact absurd ⟨id, there⟩ clearing
      | _ => simpa only [watch, step, observe, there] using inv

theorem ended_curls (world : World) (c : Nat) (dest : Place) (status : Int) :
    SameSlot world { world with curls := update world.curls c (some ⟨dest, some status⟩) } := by
  refine ⟨rfl, rfl, rfl, fun d curl found open_ => ?_, fun flag => flag⟩
  by_cases same : d = c
  · have ended : some (⟨dest, some status⟩ : Curl) = some curl := by
      rw [← found, same]
      exact (update_self c _ world.curls).symm
    cases ended
    cases open_
  · refine ⟨curl, ?_, open_⟩
    rw [← found]
    exact (update_of_ne same _ world.curls).symm

theorem slot_strike (inv : SlotInv gateway watched) {id : Bytes} {c : Nat} (own : watched.owner c = id) :
    SlotInv gateway (strike watched id c) := by
  unfold strike
  split
  · rename_i dest written
    have killed := slot_frame inv (ended_curls watched.world c dest (-1))
    refine { killed with struck := fun hit member => ?_ }
    rcases List.mem_append.mp member with old | new
    · exact inv.struck hit old
    · rw [List.mem_singleton.mp new]
      exact own.symm
  · exact inv

theorem slot_kill (inv : SlotInv gateway watched) (i : Nat) (undisturbed : Undisturbed gateway watched (.kill i)) :
    SlotInv gateway (watch gateway watched (.kill i)) := by
  have read : SlotInv gateway { watched with killing := update watched.killing i none } := { inv with }
  simp only [watch, killCurl]
  cases killing : watched.killing i with
  | none => exact inv
  | some id =>
    cases tracked : watched.world.curlPid with
    | none => exact read
    | some c =>
      obtain ⟨w, job, k, there⟩ := inv.pid c tracked
      exact slot_strike read (undisturbed id c killing tracked w _ job k there)

theorem slot_exit (inv : SlotInv gateway watched) (c : Nat) (status : Int) :
    SlotInv gateway (watch gateway watched (.base (.exit c status))) := by
  simp only [watch, step, observe]
  split
  · exact slot_frame inv (ended_curls ..)
  · exact inv

theorem slot_step (inv : SlotInv gateway watched) (move : Move) (undisturbed : Undisturbed gateway watched move) :
    SlotInv gateway (watch gateway watched move) := by
  cases move with
  | kill i => exact slot_kill inv i undisturbed
  | base event =>
    by_cases asks : event.asks = true
    · simp only [watch, asks_unobserved asks]
      exact slot_frame inv (asks_same watched.world asks)
    · cases event with
      | activate i w => exact slot_activate inv i w undisturbed
      | signal i => exact slot_signal inv i undisturbed
      | clear w => exact slot_clear inv w
      | exit c status => exact slot_exit inv c status
      | restart listing => exact undisturbed.elim
      | shutdown =>
        simp only [watch, step, observe]
        split
        · exact slot_frame inv ⟨rfl, rfl, rfl, fun _ curl found open_ => ⟨curl, found, open_⟩, fun _ => rfl⟩
        · exact inv
      | deliver c content =>
        simp only [watch, step, observe]
        split
        · exact slot_frame inv ⟨rfl, rfl, rfl, fun _ curl found open_ => ⟨curl, found, open_⟩, fun flag => flag⟩
        · exact inv
      | start w freeBytes saved =>
        simp only [watch, step, observe]
        split
        · rename_i id there
          exact slot_start inv there freeBytes saved undisturbed
        · exact inv
      | work w action =>
        cases there : watched.world.workers w with
        | none =>
          have unobserved : observe watched (.work w action) = watched := by
            cases action <;> simp only [observe, there]
          simpa only [watch, step, there, unobserved] using inv
        | some worker =>
          obtain ⟨id, phase⟩ := worker
          simp only [watch, step, there]
          cases phase with
          | holding job stage => exact slot_work inv there action undisturbed
          | _ =>
            have unobserved : observe watched (.work w action) = watched := by
              cases action <;> simp only [observe, there]
            rw [unobserved]
            exact inv
      | _ => exact absurd rfl asks

end Requests

theorem slot_watching (files : Place → Option Content) : SlotInv gateway (watching files) where
  single _ _ _ _ none := (nomatch none)
  named _ _ none := (nomatch none)
  curls _ _ none := (nomatch none)
  pid _ none := (nomatch none)
  flagged none := absurd rfl none
  aimed _ none := (nomatch none)
  hits _ none := (nomatch none)
  struck _ none := (nomatch none)
  kept := rfl

-- Any clients' requests, any worker's steps, in any order.
theorem slot_is_exclusive (gateway : Gateway) (files : Place → Option Content) (moves : List Move)
    (undisturbed : Along (watch gateway) (Undisturbed gateway) (watching files) moves) :
    SlotExclusive (moves.foldl (watch gateway) (watching files)) := by
  have preserved : ∀ watched move, SlotInv gateway watched → Undisturbed gateway watched move →
      SlotInv gateway (watch gateway watched move) := fun _ move inv good => slot_step inv move good
  exact slot_exclusive (along_invariant preserved (slot_watching files) moves undisturbed)

def stopped : List Move :=
  ((asked [.work 0 (.begin 0 true), .pause 1 job, .look 1, .signal 1, .exit 0 (-1), .work 0 (.reap true),
    .work 0 (.stop true), .clear 0]).map .base)

theorem stopped_undisturbed : Along (watch bundled) (Undisturbed bundled) (watching nothing) stopped := by
  refine ⟨fun none => absurd rfl none, fun none => absurd rfl none, fun none => absurd rfl none, fun _ _ _ _ none => ?_,
    fun none => absurd rfl none, fun none => absurd rfl none, fun none => absurd rfl none, fun none => absurd rfl none,
    ?_, fun _ => trivial, fun _ => trivial, fun _ => trivial, fun _ => trivial, trivial⟩
  · cases none
  · intro id stop signaling
    cases signaling
    exact ⟨0, _, rfl, trivial⟩

theorem slot_is_exclusive_stopped : SlotExclusive (stopped.foldl (watch bundled) (watching nothing)) :=
  slot_is_exclusive bundled nothing stopped stopped_undisturbed

def other : Bytes :=
  utf8 "other"

def hurried : List Move :=
  [.install 0 (utf8 "tiny") (utf8 "1") [] true [], .install 1 (utf8 "tiny") (utf8 "1") [] true [], .busy 0, .busy 1,
    .create 0 job true, .create 1 other true, .activate 0 0, .activate 1 1].map .base

theorem two_workers :
    ¬ ∀ (gateway : Gateway) (files : Place → Option Content) (moves : List Move),
      SlotExclusive (moves.foldl (watch gateway) (watching files)) := by
  intro always
  have first : ((hurried.foldl (watch bundled) (watching nothing)).world.workers 0).any (·.phase.running) = true := by
    decide
  have second : ((hurried.foldl (watch bundled) (watching nothing)).world.workers 1).any (·.phase.running) = true := by
    decide
  obtain ⟨one, there, running⟩ := (Option.any_eq_true ..).mp first
  obtain ⟨two, there', running'⟩ := (Option.any_eq_true ..).mp second
  exact absurd ((always bundled nothing hurried).single 0 1 one two there running there' running') (by decide)

end SamosaChat.Install
