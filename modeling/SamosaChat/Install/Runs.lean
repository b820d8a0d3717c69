import SamosaChat.Install.Effects

set_option autoImplicit false

namespace SamosaChat.Install

open Utf8 Text Binary64 Json Runs Function

variable {i : Nat} {phase : Phase}

section Workers

variable {gateway : Gateway} {first : Place → Option Content} {world : World} {w : Nat} {id : Bytes}

variable {download : Download}

theorem download_artifact {artifact : Artifact} (ready : artifact.download = some download) : download.artifact = artifact := by
  rw [Artifact.download] at ready
  split at ready
  · cases ready
    rfl
  · cases ready

theorem download_listed {job : InstallJob}
    (found : gateway.download job i = some download) : (gateway.artifacts job)[i]? = some download.artifact := by
  rw [Gateway.download, Option.bind_eq_some_iff] at found
  obtain ⟨artifact, listed, ready⟩ := found
  rw [download_artifact ready]
  exact listed

theorem download_staging (download : Download) : download.artifact.stagingName = some (sanitizeStagingName download.name) := by
  rw [Artifact.stagingName, download.named]
  rfl

theorem quiet_of (inv : Inv gateway first world) (there : world.workers w = some ⟨id, phase⟩)
    (live : phase.live = true) (waits : ∀ job i c, phase = .holding job (.fetching i c) → (world.curls c).bind Curl.exit ≠ none)
    (c : Nat) (name : Bytes) : world.curls c ≠ some ⟨.staged id name, none⟩ := by
  intro writes
  obtain ⟨job, i, _, fetching, _⟩ := inv.sole w _ there live c name writes
  apply waits job i c fetching
  rw [writes]
  rfl

theorem inv_move (inv : Inv gateway first world) (there : world.workers w = some ⟨id, phase⟩)
    (live : phase.live = true) (quiet : ∀ c name, world.curls c ≠ some ⟨.staged id name, none⟩) {job : InstallJob}
    {stage : Stage} (working : job.state.working = true) (standing : Standing gateway world w id job stage)
    (saved : Bool) : Inv gateway first ((world.save id job saved).hold w id job stage) := by
  have stored : Inv gateway first (world.save id job saved) := by
    apply inv_save inv saved (.inl working)
    · exact fun acked => absurd acked (live_unacked inv there live)
    · intro installed
      rw [installed] at working
      cases working
  have same : (world.save id job saved).workers = world.workers ∧ (world.save id job saved).curls = world.curls ∧
      (world.save id job saved).files = world.files ∧ (world.save id job saved).publishes = world.publishes ∧
        (world.save id job saved).committed = world.committed := by
    cases saved <;> exact ⟨rfl, rfl, rfl, rfl, rfl⟩
  obtain ⟨workers, curls, files, publishes, committed⟩ := same
  apply inv_hold stored (by rw [workers]; exact there) live
  · intro c name writes
    rw [curls] at writes
    exact absurd writes (quiet c name)
  · apply standing_frame standing
    case files => exact fun _ => by rw [files]
    case publishes => exact fun _ member => by rw [publishes]; exact member
    case committed => exact fun _ member => by rw [committed]; exact member

theorem standing_bare {job : InstallJob} {stage : Stage} (uncovered : ∀ k, ¬stage.covers k)
    (unsized : ∀ i, stage ≠ .verifying i) (unpublished : ∀ i, stage ≠ .publishing i) : Standing gateway world w id job stage where
  verified := fun k _ _ covers => absurd covers (uncovered k)
  sized := fun i _ verifying => absurd verifying (unsized i)
  published := fun i publishing => absurd publishing (unpublished i)

theorem inv_halt (inv : Inv gateway first world) (there : world.workers w = some ⟨id, phase⟩)
    (live : phase.live = true) (quiet : ∀ c name, world.curls c ≠ some ⟨.staged id name, none⟩) (job : InstallJob)
    {stage : Stage} (halts : stage = .failing ∨ stage = .stopping) : Inv gateway first (world.hold w id job stage) := by
  apply inv_hold inv there live
  · exact fun c name writes => absurd writes (quiet c name)
  · rcases halts with rfl | rfl
    · exact standing_bare (fun _ covers => covers) nofun nofun
    · exact standing_bare (fun _ covers => covers) nofun nofun

theorem inv_discard (separate : Separate gateway) (inv : Inv gateway first world)
    (there : world.workers w = some ⟨id, phase⟩) (live : phase.live = true)
    (quiet : ∀ c name, world.curls c ≠ some ⟨.staged id name, none⟩) (job : InstallJob) (name : Bytes) :
    Inv gateway first ((world.place (.staged id name) none).hold w id job .failing) := by
  have halted := inv_halt inv there live quiet job (.inl rfl)
  have unlinked : Inv gateway first ((world.hold w id job .failing).place (.staged id name) none) := by
    apply inv_place separate halted
    intro w' job' stage found k artifact inside named
    have here : (world.hold w id job .failing).workers w = some ⟨id, .holding job .failing⟩ := update_self _ _ _
    have same := halted.apart w' _ w _ found here rfl rfl rfl
    subst same
    rw [here] at found
    cases found
    exact ⟨fun covers => covers, nofun⟩
  exact unlinked

theorem inv_part (inv : Inv gateway first world) (there : world.workers w = some ⟨id, phase⟩)
    (live : phase.live = true) {job : InstallJob} (saved : Bool)
    (installed : job.state = .installed → ∀ artifact ∈ gateway.artifacts job, (id, artifact) ∈ world.publishes) :
    Inv gateway first ((world.save id job saved).work w ⟨id, .clearing⟩) := by
  have left := @inv_leave _ _ _ inv w id .clearing rfl
  have unheld : Unheld (world.work w ⟨id, .clearing⟩) id := by
    constructor
    case workers =>
      intro w' worker found live' own
      rcases update_cases found with ⟨_, ⟨⟩⟩ | ⟨same, found⟩
      · cases live'
      · exact same (inv.apart w' worker w _ found there live' live own)
    case handlers => exact live_unqueued inv there live
  have stored : Inv gateway first ((world.work w ⟨id, .clearing⟩).save id job saved) := by
    apply inv_save left saved (.inr unheld)
    · exact fun acked => absurd acked (live_unacked inv there live)
    · exact installed
  cases saved with
  | false => exact stored
  | true => exact stored

theorem inv_start (inv : Inv gateway first world) (there : world.workers w = some ⟨id, .spawned⟩)
    (freeBytes : Option Nat) (saved : Bool) : Inv gateway first (startWorker gateway world w id freeBytes saved) := by
  have quiet := quiet_of inv there rfl nofun
  rw [startWorker]
  cases world.jobs id with
  | none => exact inv_leave inv w id rfl
  | some job =>
    dsimp only
    cases catalogFindModel gateway.catalog job.modelId.text job.version.text with
    | none => exact inv_halt inv there rfl quiet _ (.inl rfl)
    | some entry =>
      dsimp only
      cases freeBytes.filter _ with
      | some free => exact inv_halt inv there rfl quiet _ (.inl rfl)
      | none =>
        apply inv_move inv there rfl quiet rfl
        exact standing_bare (fun k => Nat.not_lt_zero k) nofun nofun

variable {job : InstallJob} {stage : Stage}

theorem inv_sized (inv : Inv gateway first world) (there : world.workers w = some ⟨id, .holding job stage⟩)
    (quiet : ∀ c name, world.curls c ≠ some ⟨.staged id name, none⟩)
    (listed : (gateway.artifacts job)[i]? = some download.artifact) (before : ∀ k, k < i → stage.covers k)
    (sized : (world.files (download.staged id)).any download.artifact.sized = true) (saved : Bool) : Inv gateway first
      ((world.save id (job.moved .verifying) saved).hold w id (job.moved .verifying) (.verifying i)) := by
  have standing := inv.standing w id job stage there
  apply inv_move inv there rfl quiet rfl
  constructor
  case verified => exact fun k artifact inside covers => standing.verified k artifact inside (before k covers)
  case sized =>
    intro k artifact same inside
    injection same with same
    subst same
    cases listed.symm.trans inside
    obtain ⟨content, found, good⟩ := (Option.any_eq_true _ _).mp sized
    exact ⟨_, content, download_staging download, found, good⟩
  case published => exact fun _ publishing => nomatch publishing

theorem inv_begin (inv : Inv gateway first world) (there : world.workers w = some ⟨id, .holding job (.artifact i)⟩)
    (listed : (gateway.artifacts job)[i]? = some download.artifact) (c : Nat) (saved : Bool) :
    Inv gateway first (beginArtifact world w id job i download c saved) := by
  have quiet := quiet_of inv there rfl nofun
  have standing := inv.standing w id job _ there
  rw [beginArtifact]
  by_cases offered : download.url = []
  · rw [if_pos offered]
    exact inv_halt inv there rfl quiet _ (.inl rfl)
  rw [if_neg offered]
  by_cases stops : world.stopSignal.isSome = true
  · rw [if_pos stops]
    exact inv_halt inv there rfl quiet _ (.inr rfl)
  rw [if_neg stops]
  by_cases sized : (world.files (download.staged id)).any download.artifact.sized = true
  · rw [if_pos sized]
    exact inv_sized inv there quiet listed (fun _ before => before) sized saved
  rw [if_neg sized]
  cases world.curls c with
  | some _ => exact inv
  | none =>
    dsimp only
    have waits : Inv gateway first (world.hold w id job (.fetching i c)) := by
      apply inv_hold inv there rfl
      · exact fun c' name writes => absurd writes (quiet c' name)
      · constructor
        case verified => exact standing.verified
        case sized => exact fun _ _ verifying => nomatch verifying
        case published => exact fun _ publishing => nomatch publishing
    have here : (world.hold w id job (.fetching i c)).workers w = some ⟨id, .holding job (.fetching i c)⟩ :=
      update_self _ _ _
    have running : Inv gateway first { world.hold w id job (.fetching i c) with
        curls := update world.curls c (some ⟨download.staged id, none⟩) } := by
      apply inv_curl waits
      intro w' worker found live own
      have same := waits.apart w' worker w _ found here live rfl own
      subst same
      cases here.symm.trans found
      exact ⟨job, i, download.artifact, rfl, listed, download_staging download⟩
    exact inv_slot running world.active world.stopSignal (some c)

theorem inv_reap (separate : Separate gateway) (inv : Inv gateway first world) {c : Nat} {rc : Int}
    (there : world.workers w = some ⟨id, .holding job (.fetching i c)⟩) (ended : (world.curls c).bind Curl.exit = some rc)
    (listed : (gateway.artifacts job)[i]? = some download.artifact) (saved : Bool) :
    Inv gateway first (reapCurl world w id job i download rc saved) := by
  have quiet : ∀ c' name, world.curls c' ≠ some ⟨.staged id name, none⟩ := by
    apply quiet_of inv there rfl
    intro job' i' c' same
    cases same
    rw [ended]
    exact nofun
  rw [reapCurl]
  by_cases stops : world.stopSignal.isSome = true
  · rw [if_pos stops]
    exact inv_halt inv there rfl quiet _ (.inr rfl)
  rw [if_neg stops]
  by_cases failed : rc ≠ 0
  · rw [if_pos failed]
    exact inv_halt inv there rfl quiet _ (.inl rfl)
  rw [if_neg failed]
  by_cases sized : (world.files (download.staged id)).any download.artifact.sized = true
  · rw [if_pos sized]
    exact inv_sized inv there quiet listed (fun _ before => before) sized saved
  · rw [if_neg sized]
    exact inv_discard separate inv there rfl quiet _ _

theorem inv_hash (separate : Separate gateway) (inv : Inv gateway first world)
    (there : world.workers w = some ⟨id, .holding job (.verifying i)⟩)
    (listed : (gateway.artifacts job)[i]? = some download.artifact) (readable : Bool) :
    Inv gateway first (hashStaged world w id job i download readable) := by
  have quiet := quiet_of inv there rfl nofun
  have standing := inv.standing w id job _ there
  rw [hashStaged]
  by_cases same : (readable && (world.files (download.staged id)).any fun content =>
      download.artifact.sha256 == some content.hex) = true
  · rw [if_pos same]
    apply inv_hold inv there rfl
    · exact fun c name writes => absurd writes (quiet c name)
    · constructor
      case verified =>
        intro k artifact inside covers
        rcases Nat.lt_or_eq_of_le covers with before | own
        · exact standing.verified k artifact inside before
        · subst own
          cases listed.symm.trans inside
          obtain ⟨name, content, named, held, sized⟩ := standing.sized k _ rfl listed
          obtain ⟨content', held', hash⟩ := (Option.any_eq_true _ _).mp ((Bool.and_eq_true _ _).mp same).2
          cases (download_staging download).symm.trans named
          cases held'.symm.trans held
          exact ⟨_, content, named, held, sized, beq_iff_eq.mp hash⟩
      case sized => exact fun _ _ verifying => nomatch verifying
      case published => exact fun _ publishing => nomatch publishing
  · rw [if_neg same]
    exact inv_discard separate inv there rfl quiet _ _

theorem inv_check (inv : Inv gateway first world) (there : world.workers w = some ⟨id, .holding job (.hashed i)⟩) :
    Inv gateway first (world.hold w id job (if world.stopSignal.isSome then .stopping else .artifact (i + 1))) := by
  have quiet := quiet_of inv there rfl nofun
  by_cases stops : world.stopSignal.isSome = true
  · rw [if_pos stops]
    exact inv_halt inv there rfl quiet _ (.inr rfl)
  · rw [if_neg stops]
    have standing := inv.standing w id job _ there
    apply inv_hold inv there rfl
    · exact fun c name writes => absurd writes (quiet c name)
    · constructor
      case verified => exact fun k artifact inside before => standing.verified k artifact inside (Nat.le_of_lt_succ before)
      case sized => exact fun _ _ verifying => nomatch verifying
      case published => exact fun _ publishing => nomatch publishing

theorem inv_commit (inv : Inv gateway first world)
    (there : world.workers w = some ⟨id, .holding job (.artifact i)⟩) (done : (gateway.artifacts job)[i]? = none)
    (saved : Bool) :
    Inv gateway first ({ world.save id (job.moved .installing) saved with
      committed := w :: world.committed }.hold w id (job.moved .installing) (.publishing 0)) := by
  have standing := inv.standing w id job _ there
  have grown := inv_grow inv [] [w]
  have quiet := quiet_of inv there rfl nofun
  have moved : Inv gateway first (({ world with
      publishes := [] ++ world.publishes
      committed := [w] ++ world.committed }.save id (job.moved .installing) saved).hold w id (job.moved .installing)
        (.publishing 0)) := by
    apply inv_move grown there rfl quiet rfl
    constructor
    case verified =>
      intro k artifact inside _
      apply standing.verified k artifact inside
      have listed := (List.getElem?_eq_some_iff.mp inside).1
      exact Nat.lt_of_lt_of_le listed (List.getElem?_eq_none_iff.mp done)
    case sized => exact fun _ _ verifying => nomatch verifying
    case published =>
      intro k publishing
      cases publishing
      exact ⟨List.mem_cons_self, fun k _ before => absurd before (Nat.not_lt_zero k)⟩
  cases saved with
  | false => exact moved
  | true => exact moved

theorem inv_publish (separate : Separate gateway) (inv : Inv gateway first world)
    (there : world.workers w = some ⟨id, .holding job (.publishing i)⟩) {artifact : Artifact}
    (listed : (gateway.artifacts job)[i]? = some artifact) (renamed : Bool) :
    Inv gateway first (publishArtifact gateway world w id job i artifact renamed) := by
  have quiet := quiet_of inv there rfl nofun
  have standing := inv.standing w id job _ there
  obtain ⟨began, done⟩ := standing.published i rfl
  have aborted := inv_halt inv there rfl quiet (job.erred "activation_failed" []) (.inl rfl)
  rw [publishArtifact]
  cases named : artifact.stagingName with
  | none => exact aborted
  | some name =>
    cases installPath : artifact.installPath with
    | none => exact aborted
    | some path =>
      dsimp only
      cases found : (world.files (.staged id name)).filter fun _ => renamed with
      | none => exact aborted
      | some content =>
        have held := (Option.filter_eq_some_iff.mp found).1
        obtain ⟨name', content', named', held', good⟩ := standing.verified i artifact listed (Nat.le_refl i)
        cases named.symm.trans named'
        cases held.symm.trans held'
        have counted : Inv gateway first ({ world with
            publishes := [(id, artifact)] ++ world.publishes
            committed := [] ++ world.committed }.hold w id job (.publishing (i + 1))) := by
          apply inv_hold (inv_grow inv [(id, artifact)] []) there rfl
          · exact fun c name writes => absurd writes (quiet c name)
          · constructor
            case verified =>
              exact fun k artifact inside later => standing.verified k artifact inside (Nat.le_of_succ_le later)
            case sized => exact fun _ _ verifying => nomatch verifying
            case published =>
              intro k publishing
              cases publishing
              refine ⟨began, ?_⟩
              intro k other before inside
              rcases Nat.lt_or_eq_of_le (Nat.le_of_lt_succ before) with earlier | own
              · exact List.mem_append_right _ (done k other earlier inside)
              · subst own
                cases listed.symm.trans inside
                exact List.mem_append_left _ List.mem_cons_self
        have here : ({ world with
            publishes := [(id, artifact)] ++ world.publishes
            committed := [] ++ world.committed }.hold w id job (.publishing (i + 1))).workers w =
              some ⟨id, .holding job (.publishing (i + 1))⟩ := update_self _ _ _
        have taken := by
          apply @inv_place _ _ _ separate counted id name none
          intro w' job' stage found' k other inside named''
          have same := counted.apart w' _ w _ found' here rfl rfl rfl
          subst same
          cases here.symm.trans found'
          refine ⟨?_, nofun⟩
          intro later
          exact staging_names_apart separate listed inside (Nat.ne_of_lt later) named named''
        exact inv_published separate taken (artifacts_catalog (List.mem_of_getElem? listed)) installPath good began

theorem inv_finish (inv : Inv gateway first world)
    (there : world.workers w = some ⟨id, .holding job (.publishing i)⟩) (done : (gateway.artifacts job)[i]? = none) (saved : Bool) :
    Inv gateway first ((world.save id (job.moved .installed) saved).work w ⟨id, .clearing⟩) := by
  apply inv_part inv there rfl
  intro _ artifact member
  obtain ⟨k, inside⟩ := List.getElem?_of_mem member
  have listed := (List.getElem?_eq_some_iff.mp inside).1
  exact ((inv.standing w id job _ there).published i rfl).2 k artifact
    (Nat.lt_of_lt_of_le listed (List.getElem?_eq_none_iff.mp done)) inside

theorem inv_workerStep (separate : Separate gateway) (inv : Inv gateway first world)
    (there : world.workers w = some ⟨id, .holding job stage⟩) (action : Action) :
    Inv gateway first (workerStep gateway world w id job stage action) := by
  cases action with
  | begin c saved =>
    cases stage with
    | artifact i =>
      simp only [workerStep]
      cases listed : (gateway.artifacts job)[i]? with
      | none => exact inv
      | some artifact =>
        dsimp only
        cases ready : artifact.download with
        | none => exact inv_halt inv there rfl (quiet_of inv there rfl nofun) _ (.inl rfl)
        | some download =>
          rw [← download_artifact ready] at listed
          exact inv_begin inv there listed c saved
    | _ => exact inv
  | reap saved =>
    cases stage with
    | fetching i c =>
      simp only [workerStep]
      cases found : gateway.download job i with
      | none => exact inv
      | some download =>
        cases ended : (world.curls c).bind Curl.exit with
        | none => exact inv
        | some rc =>
          have reaped := inv_slot inv world.active world.stopSignal none
          exact inv_reap separate reaped there ended (download_listed found) saved
    | _ => exact inv
  | hash readable =>
    cases stage with
    | verifying i =>
      simp only [workerStep]
      cases found : gateway.download job i with
      | none => exact inv
      | some download => exact inv_hash separate inv there (download_listed found) readable
    | _ => exact inv
  | check =>
    cases stage with
    | hashed i => exact inv_check inv there
    | _ => exact inv
  | stop saved =>
    cases stage with
    | stopping =>
      simp only [workerStep]
      apply inv_part inv there rfl
      intro installed
      change (if world.stopSignal = some .pause then InstallState.paused else .canceled) = .installed at installed
      obtain ⟨pause, installed⟩ := past_guard installed nofun
      cases installed
    | _ => exact inv
  | fail saved =>
    cases stage with
    | failing => exact inv_part inv there rfl saved fun installed => nomatch installed
    | _ => exact inv
  | commit saved =>
    cases stage with
    | artifact i =>
      simp only [workerStep]
      cases listed : (gateway.artifacts job)[i]? with
      | some artifact => exact inv
      | none => exact inv_commit inv there listed saved
    | _ => exact inv
  | publish renamed =>
    cases stage with
    | publishing i =>
      simp only [workerStep]
      cases listed : (gateway.artifacts job)[i]? with
      | none => exact inv
      | some artifact => exact inv_publish separate inv there listed renamed
    | _ => exact inv
  | finish saved =>
    cases stage with
    | publishing i =>
      simp only [workerStep]
      cases listed : (gateway.artifacts job)[i]? with
      | some artifact => exact inv
      | none => exact inv_finish inv there listed saved
    | _ => exact inv

end Workers

section Handlers

variable {gateway : Gateway} {first : Place → Option Content} {world : World}

section Handlers

variable (inv : Inv gateway first world)
include inv

theorem inv_enqueue (i : Nat) {id : Bytes} {job : InstallJob}
    (rests : ∀ job, world.jobs id = some job → job.state.working = false) (unacked : id ∉ world.acked)
    (queued : job.state = .queued) : Inv gateway first ((world.save id job true).handle i (.queued id)) := by
  have unheld := unheld_of inv rests
  have working : job.state.working = true := by rw [queued]; rfl
  have stored : Inv gateway first (world.save id job true) := by
    apply inv_save inv true (.inl working)
    · exact fun acked => absurd acked unacked
    · intro installed
      rw [queued] at installed
      cases installed
  apply inv_handle stored
  intro id' same
  cases same
  exact ⟨⟨job, update_self _ _ _, working⟩, unheld.workers, unheld.handlers⟩

theorem inv_install (i : Nat) (modelId version clientRequestId : Bytes) (compatible : Bool) (listing : List Bytes) :
    Inv gateway first (step gateway world (.install i modelId version clientRequestId compatible listing)) := by
  simp only [step]
  cases world.handlers i with
  | idle =>
    cases catalogFindModel gateway.catalog _ _ with
    | none => exact inv
    | some entry =>
      dsimp only
      split_ifs
      · exact inv
      · exact inv_proceed inv i fun _ same => by cases same
  | _ => exact inv

theorem inv_create {id : Bytes} {saved : Bool}
    (good : Good world (.create i id saved)) : Inv gateway first (step gateway world (.create i id saved)) := by
  simp only [step]
  cases world.handlers i with
  | admitted wish =>
    cases wish with
    | create modelId version clientRequestId =>
      cases saved with
      | false => exact inv_proceed inv i fun _ same => by cases same
      | true =>
        apply inv_enqueue inv i _ good.2 rfl
        intro job found
        rw [good.1] at found
        cases found
    | _ => exact inv
  | _ => exact inv

theorem inv_resume (i : Nat) (id : Bytes) : Inv gateway first (step gateway world (.resume i id)) := by
  simp only [step]
  cases world.handlers i with
  | idle =>
    cases world.jobs id with
    | none => exact inv
    | some job =>
      dsimp only
      split_ifs
      · exact inv_proceed inv i fun _ same => by cases same
      · exact inv
  | _ => exact inv

theorem inv_retry (i : Nat) (id : Bytes) : Inv gateway first (step gateway world (.retry i id)) := by
  simp only [step]
  cases world.handlers i with
  | idle =>
    cases world.jobs id with
    | none => exact inv
    | some job =>
      dsimp only
      split_ifs
      · exact inv_proceed inv i fun _ same => by cases same
      · exact inv
  | _ => exact inv

theorem inv_pause (i : Nat) (id : Bytes) : Inv gateway first (step gateway world (.pause i id)) := by
  simp only [step]
  cases world.handlers i with
  | idle =>
    cases world.jobs id with
    | none => exact inv
    | some job =>
      dsimp only
      split_ifs
      · exact inv
      · exact inv_proceed inv i fun _ same => by cases same
  | _ => exact inv

theorem inv_cancel (i : Nat) (id : Bytes) : Inv gateway first (step gateway world (.cancel i id)) := by
  simp only [step]
  cases world.handlers i with
  | idle =>
    cases found : world.jobs id with
    | none => exact inv
    | some job =>
      dsimp only
      split_ifs with canceled
      · apply inv_ack inv
        intro job' found'
        cases found.symm.trans found'
        rw [canceled]
        rfl
      · exact inv_proceed inv i fun _ same => by cases same
      · exact inv_proceed inv i fun _ same => by cases same
  | _ => exact inv

theorem inv_busy (i : Nat) : Inv gateway first (step gateway world (.busy i)) := by
  simp only [step]
  cases world.handlers i with
  | wants wish =>
    dsimp only
    split_ifs
    · exact inv_proceed inv i fun _ same => by cases same
    · exact inv_proceed inv i fun _ same => by cases same
  | _ => exact inv

theorem inv_requeue {saved : Bool} (good : Good world (.requeue i saved)) :
    Inv gateway first (step gateway world (.requeue i saved)) := by
  simp only [step]
  cases asked : world.handlers i with
  | admitted wish =>
    cases wish with
    | resume id job =>
      obtain ⟨stored, job', found, paused⟩ := good id job asked
      rw [stored]
      apply inv_enqueue inv i _ _ rfl
      · intro job'' found'
        cases found.symm.trans found'
        rw [paused]
        rfl
      · intro acked
        have ended := inv.acked id acked job' found
        rw [paused] at ended
        cases ended
    | _ => exact inv
  | _ => exact inv

end Handlers

theorem inv_renameStep (separate : Separate gateway) (inv : Inv gateway first world) {id : Bytes}
    {renamed saved : Bool} (good : Good world (.rename i id renamed saved)) :
    Inv gateway first (step gateway world (.rename i id renamed saved)) := by
  simp only [step]
  cases asked : world.handlers i with
  | admitted wish =>
    cases wish with
    | retry old job =>
      dsimp only
      obtain ⟨⟨free, unacked⟩, loaded⟩ := good
      have ended := loaded old job asked
      have moved : Inv gateway first (if renamed then world.renameDir old id else world) ∧
          id ∉ (if renamed then world.renameDir old id else world).acked ∧
            ∀ job, (if renamed then world.renameDir old id else world).jobs id = some job →
              job.state.working = false := by
        cases renamed with
        | true =>
          refine ⟨inv_rename separate inv ended free, unacked, ?_⟩
          intro job' found
          change update (update world.jobs id (world.jobs old)) old none id = some job' at found
          by_cases same : id = old
          · rw [same, update_self] at found
            cases found
          · rw [update_of_ne same, update_self] at found
            exact over_rests (ended job' found)
        | false =>
          refine ⟨inv, unacked, ?_⟩
          intro job' found
          change world.jobs id = some job' at found
          rw [free] at found
          cases found
      obtain ⟨moved, unacked, rests⟩ := moved
      cases saved with
      | false => exact inv_proceed moved i fun _ same => by cases same
      | true => exact inv_enqueue moved i rests unacked rfl
    | _ => exact inv
  | _ => exact inv

theorem inv_activate (inv : Inv gateway first world) {w : Nat} (good : Good world (.activate i w)) :
    Inv gateway first (step gateway world (.activate i w)) := by
  simp only [step]
  cases waits : world.handlers i with
  | queued id =>
    cases world.workers w with
    | some worker => exact inv
    | none =>
      obtain ⟨working, unheld, unique⟩ := inv.queued i id waits
      have gone : Inv gateway first (world.handle i .idle) := inv_proceed inv i fun _ same => by cases same
      have slot := inv_slot gone (some id) none world.curlPid
      have spawned := @inv_work _ _ _ slot w id .spawned
      apply spawned
      intro _
      constructor
      case working => exact working
      case alone => exact fun w' worker found live own => absurd own (unheld w' worker found live)
      case unqueued =>
        intro i' waits'
        rcases update_cases waits' with ⟨_, ⟨⟩⟩ | ⟨own, waits'⟩
        exact own (unique i' waits')
      case sole => exact fun c name writes => absurd writes (good id waits c name)
      case standing => exact fun _ _ same => by cases same
  | _ => exact inv

theorem inv_revoke (inv : Inv gateway first world) {saved : Bool} (good : Good world (.revoke i saved)) :
    Inv gateway first (step gateway world (.revoke i saved)) := by
  simp only [step]
  cases asked : world.handlers i with
  | revoking id job =>
    have settled := good id job asked
    have rests : ∀ job, world.jobs id = some job → job.state.working = false := by
      intro job' found
      rcases settled job' found with ⟨paused, _⟩ | ended
      · rw [paused]
        rfl
      · exact over_rests ended
    have stored : Inv gateway first (world.save id (job.moved .canceled) saved) := by
      apply inv_save inv saved (.inr (unheld_of inv rests))
      · exact fun _ => rfl
      · exact fun installed => by cases installed
    have told : Inv gateway first ((world.save id (job.moved .canceled) saved).ack id) := by
      apply inv_ack stored
      intro job' found
      cases saved with
      | true =>
        change update world.jobs id (some (job.moved .canceled)) id = some job' at found
        rw [update_self] at found
        cases found
        rfl
      | false => exact (settled job' found).resolve_left fun paused => Bool.false_ne_true paused.2
    exact inv_proceed told i fun _ same => by cases same
  | _ => exact inv

theorem inv_look (inv : Inv gateway first world) (i : Nat) : Inv gateway first (step gateway world (.look i)) := by
  simp only [step]
  cases world.handlers i with
  | looking id state stop =>
    dsimp only
    split_ifs
    · exact inv_proceed inv i fun _ same => by cases same
    · exact inv_proceed inv i fun _ same => by cases same
  | _ => exact inv

theorem inv_signal (inv : Inv gateway first world) (i : Nat) : Inv gateway first (step gateway world (.signal i)) := by
  simp only [step]
  cases world.handlers i with
  | signaling id stop =>
    have signaled := inv_slot inv world.active (some stop) world.curlPid
    apply inv_proceed signaled i
    cases stop with
    | pause => exact fun _ same => by cases same
    | cancel => exact fun _ same => by cases same
  | _ => exact inv

theorem inv_await (inv : Inv gateway first world) (i : Nat) : Inv gateway first (step gateway world (.await i)) := by
  simp only [step]
  cases world.handlers i with
  | awaiting id =>
    dsimp only
    have told : Inv gateway first
        (if (world.jobs id).any fun job => job.state == .canceled then world.ack id else world) := by
      by_cases canceled : ((world.jobs id).any fun job => job.state == .canceled) = true
      · rw [if_pos canceled]
        apply inv_ack inv
        intro job found
        rw [found, Option.any_some, beq_iff_eq] at canceled
        rw [canceled]
        rfl
      · rw [if_neg canceled]
        exact inv
    exact inv_proceed told i fun _ same => by cases same
  | _ => exact inv

theorem inv_step (separate : Separate gateway) (inv : Inv gateway first world) (event : Event)
    (good : Good world event) : Inv gateway first (step gateway world event) := by
  cases event with
  | install i modelId version clientRequestId compatible listing =>
    exact inv_install inv i modelId version clientRequestId compatible listing
  | create i id saved => exact inv_create inv good
  | resume i id => exact inv_resume inv i id
  | retry i id => exact inv_retry inv i id
  | pause i id => exact inv_pause inv i id
  | cancel i id => exact inv_cancel inv i id
  | busy i => exact inv_busy inv i
  | requeue i saved => exact inv_requeue inv good
  | rename i id renamed saved => exact inv_renameStep separate inv good
  | activate i w => exact inv_activate inv good
  | revoke i saved => exact inv_revoke inv good
  | look i => exact inv_look inv i
  | signal i => exact inv_signal inv i
  | await i => exact inv_await inv i
  | start w freeBytes saved =>
    simp only [step]
    cases there : world.workers w with
    | none => exact inv
    | some worker =>
      obtain ⟨id, phase⟩ := worker
      cases phase with
      | spawned => exact inv_start inv there freeBytes saved
      | _ => exact inv
  | work w action =>
    simp only [step]
    cases there : world.workers w with
    | none => exact inv
    | some worker =>
      obtain ⟨id, phase⟩ := worker
      cases phase with
      | holding job stage => exact inv_workerStep separate inv there action
      | _ => exact inv
  | clear w =>
    simp only [step]
    cases world.workers w with
    | none => exact inv
    | some worker =>
      obtain ⟨id, phase⟩ := worker
      cases phase with
      | clearing =>
        have cleared := inv_slot inv none none none
        exact inv_leave cleared w id rfl
      | _ => exact inv
  | deliver c content => exact inv_deliver separate inv c content
  | exit c status => exact inv_exit inv c status
  | shutdown =>
    simp only [step]
    split_ifs
    · exact inv_slot inv world.active (some .pause) world.curlPid
    · exact inv
  | restart listing => exact inv_restart inv listing

theorem inv_opened : Inv gateway first (opened first) where
  working := fun _ _ found => nomatch found
  apart := fun _ _ _ _ found => nomatch found
  sole := fun _ _ found => nomatch found
  standing := fun _ _ _ _ found => nomatch found
  queued := fun _ _ found => nomatch found
  acked := by
    intro id member
    cases member
  staging := fun _ _ found => nomatch found
  installed := fun _ _ found => nomatch found
  published := fun _ _ _ found => nomatch found
  untouched := fun _ _ => rfl

end Handlers

theorem install_safe (gateway : Gateway) (separate : Separate gateway) (first : Place → Option Content)
    (events : List Event) (good : Along (step gateway) Good (opened first) events) :
    Kept gateway first (events.foldl (step gateway) (opened first)) := by
  have preserved : ∀ world event, Inv gateway first world → Good world event →
      Inv gateway first (step gateway world event) := fun _ event inv good => inv_step separate inv event good
  exact kept_inv separate (along_invariant preserved inv_opened events good)

def weights : Content where
  bytes := utf8 "hello"
  hex := utf8 "2cf24dba5fb0a30e26e83b2ac5b9e29e1b161e5c1fa7425e73043362938b9824"
  hashed := by decide +kernel

def object (fields : List (String × Jval)) : Jval :=
  .obj (fields.map fun field => (utf8 field.1, field.2))

def text (value : String) : Jval :=
  .str (utf8 value)

def tiny : Jval :=
  object
    [("id", text "tiny"), ("version", text "1"), ("backend_kind", text "llama_cpp"), ("required_runtime_abi", text "1"),
      ("artifacts", .arr
        [object
          [("name", text "weights.gguf"), ("url", text "https://huggingface.co/tiny/weights.gguf"),
            ("bytes", .num (ofRatio false 5 1)), ("sha256", .str weights.hex),
            ("install_path", text "models/tiny/weights.gguf")]])]

def bundled : Gateway where
  catalog :=
    { root := object [("runtime_abi", text "1"), ("models", .arr [tiny])]
      accepted := by decide +kernel }
  installs := some [utf8 "models", utf8 ".installs"]

def fetched : Artifact where
  name := some (utf8 "weights.gguf")
  url := some (utf8 "https://huggingface.co/tiny/weights.gguf")
  bytes := some (ofRatio false 5 1)
  sha256 := some weights.hex
  installPath := some (utf8 "models/tiny/weights.gguf")

theorem bundled_separate : Separate bundled := by
  have models : bundled.catalog.models = [tiny] := rfl
  have artifacts : bundled.catalog.artifacts = [fetched] := by decide +kernel
  constructor
  case staged =>
    intro entry member
    rw [models] at member
    cases List.mem_singleton.mp member
    have single : artifactsOf tiny = [fetched] := by decide +kernel
    rw [single]
    exact List.pairwise_singleton _ _
  case records =>
    intro artifact member
    rw [artifacts] at member
    cases List.mem_singleton.mp member
    decide
  case outside =>
    intro artifact member path installPath
    rw [artifacts] at member
    cases List.mem_singleton.mp member
    cases installPath
    have home : bundled.place (utf8 "models/tiny/weights.gguf") =
        .home [utf8 "models", utf8 "tiny", utf8 "weights.gguf"] := by decide
    exact ⟨_, home⟩
  case installed =>
    intro artifact member other member' _ _ _ _ _
    rw [artifacts] at member member'
    cases List.mem_singleton.mp member
    cases List.mem_singleton.mp member'
    exact ⟨rfl, rfl⟩

def job : Bytes :=
  utf8 "job"

def asked (rest : List Event) : List Event :=
  [.install 0 (utf8 "tiny") (utf8 "1") [] true [], .busy 0, .create 0 job true, .activate 0 0, .start 0 none true] ++ rest

def delivered (w c : Nat) : List Event :=
  [.work w (.begin c true), .deliver c weights, .exit c 0, .work w (.reap true), .work w (.hash true), .work w .check,
    .work w (.commit true), .work w (.publish true), .work w (.finish true), .clear w]

def nothing : Place → Option Content :=
  fun _ => none

theorem install_safe_tiny : Kept bundled nothing ((asked (delivered 0 0)).foldl (step bundled) (opened nothing)) := by
  apply install_safe bundled bundled_separate
  refine ⟨trivial, trivial, ⟨by decide, nofun⟩, ?_, trivial, trivial, trivial, trivial, trivial, trivial, trivial,
    trivial, trivial, trivial, trivial, trivial⟩
  intro id _ c name writes
  cases writes

-- The download is paused. A cancel and a resume both find the job paused, and the resume starts a worker for the job
-- that the cancel then reports as canceled.
def revived : List Event :=
  asked [.work 0 (.begin 0 true), .pause 1 job, .look 1, .signal 1, .exit 0 (-1), .work 0 (.reap true),
    .work 0 (.stop true), .clear 0, .cancel 2 job, .resume 3 job, .busy 3, .requeue 3 true, .revoke 2 true,
    .activate 3 1, .start 1 none true] ++ delivered 1 1

theorem canceled_installed : ¬ Kept bundled nothing (revived.foldl (step bundled) (opened nothing)) := by
  intro kept
  have acked : job ∈ (revived.foldl (step bundled) (opened nothing)).acked := by decide +kernel
  have installed : ((revived.foldl (step bundled) (opened nothing)).jobs job).map InstallJob.state =
      some .installed := by decide +kernel
  obtain ⟨record, found, state⟩ := Option.map_eq_some_iff.mp installed
  exact (kept.canceled job acked).1 record found state

end SamosaChat.Install
