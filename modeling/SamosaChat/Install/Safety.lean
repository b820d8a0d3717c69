import SamosaChat.Install.Machine
import SamosaChat.Lib.Runs

set_option autoImplicit false

namespace SamosaChat.Install

open Utf8 Text Runs Function

def Catalog.artifacts (catalog : Catalog) : List Artifact :=
  catalog.models.flatMap artifactsOf

structure Separate (gateway : Gateway) : Prop where
  staged : ∀ entry ∈ gateway.catalog.models,
    (artifactsOf entry).Pairwise fun a b => a.name = none ∨ a.stagingName ≠ b.stagingName
  records : ∀ artifact ∈ gateway.catalog.artifacts,
    artifact.stagingName ≠ some (utf8 "job.json") ∧ artifact.stagingName ≠ some (utf8 "events.jsonl")
  outside : ∀ artifact ∈ gateway.catalog.artifacts, ∀ path, artifact.installPath = some path →
    ∃ file, gateway.place path = .home file
  installed : ∀ artifact ∈ gateway.catalog.artifacts, ∀ other ∈ gateway.catalog.artifacts, ∀ path path',
    artifact.installPath = some path → other.installPath = some path' → gateway.place path = gateway.place path' →
      artifact.bytes = other.bytes ∧ artifact.sha256 = other.sha256

structure Kept (gateway : Gateway) (first : Place → Option Content) (world : World) : Prop where
  -- Where something was published, the file is what the catalog says of that path.
  published : ∀ artifact ∈ gateway.catalog.artifacts, ∀ path, artifact.installPath = some path →
    (world.published (gateway.place path)).isSome = true →
      ∃ content, world.files (gateway.place path) = some content ∧ artifact.Matches content
  installed : ∀ id job, world.jobs id = some job → job.state = .installed →
    ∀ artifact ∈ gateway.artifacts job, (id, artifact) ∈ world.publishes
  -- A file changes only where a worker published, and that worker had come to the installing phase.
  untouched : ∀ path, world.published (.home path) = none → world.files (.home path) = first (.home path)
  committed : ∀ place w artifact, world.published place = some (w, artifact) → w ∈ world.committed
  canceled : ∀ id ∈ world.acked, (∀ job, world.jobs id = some job → job.state ≠ .installed) ∧
    ∀ w worker, world.workers w = some worker → worker.job = id → worker.phase.live = false

def Good (world : World) : Event → Prop
  -- A new id names no job, and named none that was canceled.
  | .create _ id _ => world.jobs id = none ∧ id ∉ world.acked
  | .rename i id _ _ => (world.jobs id = none ∧ id ∉ world.acked) ∧
      ∀ old job, world.handlers i = .admitted (.retry old job) →
        ∀ job, world.jobs old = some job → job.state.over = true
  -- The job that a resume or a cancel writes is still the paused one it loaded, and the write succeeds.
  | .requeue i saved => ∀ id job, world.handlers i = .admitted (.resume id job) →
      saved = true ∧ ∃ job, world.jobs id = some job ∧ job.state = .paused
  | .revoke i saved => ∀ id job, world.handlers i = .revoking id job →
      ∀ job, world.jobs id = some job → job.state = .paused ∧ saved = true ∨ job.state.over = true
  -- No curl of an earlier run still writes into the staging directory.
  | .activate i _ => ∀ id, world.handlers i = .queued id →
      ∀ c name, world.curls c ≠ some ⟨.staged id name, none⟩
  | _ => True

def Stage.covers : Stage → Nat → Prop
  | .artifact i, k | .fetching i _, k | .verifying i, k => k < i
  | .hashed i, k => k ≤ i
  | .publishing i, k => i ≤ k
  | .stopping, _ | .failing, _ => False

def Held (world : World) (id : Bytes) (artifact : Artifact) (holds : Content → Prop) : Prop :=
  ∃ name content, artifact.stagingName = some name ∧ world.files (.staged id name) = some content ∧ holds content

structure Standing (gateway : Gateway) (world : World) (w : Nat) (id : Bytes) (job : InstallJob) (stage : Stage) :
    Prop where
  verified : ∀ k artifact, (gateway.artifacts job)[k]? = some artifact → stage.covers k →
    Held world id artifact artifact.Matches
  sized : ∀ i artifact, stage = .verifying i → (gateway.artifacts job)[i]? = some artifact →
    Held world id artifact fun content => artifact.sized content = true
  published : ∀ i, stage = .publishing i → w ∈ world.committed ∧
    ∀ k artifact, k < i → (gateway.artifacts job)[k]? = some artifact → (id, artifact) ∈ world.publishes

def Fetches (gateway : Gateway) (phase : Phase) (c : Nat) (name : Bytes) : Prop :=
  ∃ job i artifact, phase = .holding job (.fetching i c) ∧ (gateway.artifacts job)[i]? = some artifact ∧
    artifact.stagingName = some name

structure Inv (gateway : Gateway) (first : Place → Option Content) (world : World) : Prop where
  working : ∀ w worker, world.workers w = some worker → worker.phase.live = true →
    ∃ job, world.jobs worker.job = some job ∧ job.state.working = true
  apart : ∀ w worker w' worker', world.workers w = some worker → world.workers w' = some worker' →
    worker.phase.live = true → worker'.phase.live = true → worker.job = worker'.job → w = w'
  sole : ∀ w worker, world.workers w = some worker → worker.phase.live = true →
    ∀ c name, world.curls c = some ⟨.staged worker.job name, none⟩ → Fetches gateway worker.phase c name
  standing : ∀ w id job stage, world.workers w = some ⟨id, .holding job stage⟩ → Standing gateway world w id job stage
  queued : ∀ i id, world.handlers i = .queued id →
    (∃ job, world.jobs id = some job ∧ job.state.working = true) ∧
      (∀ w worker, world.workers w = some worker → worker.phase.live = true → worker.job ≠ id) ∧
        ∀ i', world.handlers i' = .queued id → i' = i
  acked : ∀ id ∈ world.acked, ∀ job, world.jobs id = some job → job.state.over = true
  staging : ∀ c curl, world.curls c = some curl → ∃ id name, curl.dest = .staged id name
  installed : ∀ id job, world.jobs id = some job → job.state = .installed →
    ∀ artifact ∈ gateway.artifacts job, (id, artifact) ∈ world.publishes
  published : ∀ place w artifact, world.published place = some (w, artifact) →
    artifact ∈ gateway.catalog.artifacts ∧ (∃ path, artifact.installPath = some path ∧ gateway.place path = place) ∧
      (∃ content, world.files place = some content ∧ artifact.Matches content) ∧ w ∈ world.committed
  untouched : ∀ path, world.published (.home path) = none → world.files (.home path) = first (.home path)

variable {artifact : Artifact}

section Lookups

variable {gateway : Gateway}

variable {job : InstallJob}

theorem artifacts_known (member : artifact ∈ gateway.artifacts job) :
    ∃ entry ∈ gateway.catalog.models, gateway.artifacts job = artifactsOf entry := by
  rw [Gateway.artifacts] at member ⊢
  cases found : catalogFindModel gateway.catalog job.modelId.text job.version.text with
  | none =>
    rw [found] at member
    cases member
  | some entry => exact ⟨entry, List.mem_of_find?_eq_some found, rfl⟩

theorem artifacts_catalog (member : artifact ∈ gateway.artifacts job) : artifact ∈ gateway.catalog.artifacts := by
  obtain ⟨entry, inside, same⟩ := artifacts_known member
  rw [same] at member
  exact List.mem_flatMap.mpr ⟨entry, inside, member⟩

theorem staging_name_some {name : Bytes} (named : artifact.stagingName = some name) : artifact.name ≠ none := by
  intro missing
  rw [Artifact.stagingName, missing] at named
  cases named

theorem staging_names_apart (separate : Separate gateway) {i k : Nat} {other : Artifact}
    (at_i : (gateway.artifacts job)[i]? = some artifact) (at_k : (gateway.artifacts job)[k]? = some other)
    (different : i ≠ k) {name : Bytes} (named : artifact.stagingName = some name) : other.stagingName ≠ some name := by
  obtain ⟨entry, inside, same⟩ := artifacts_known (List.mem_of_getElem? at_i)
  have pairs := separate.staged entry inside
  rw [← same, List.pairwise_iff_getElem] at pairs
  obtain ⟨i_lt, here⟩ := List.getElem?_eq_some_iff.mp at_i
  obtain ⟨k_lt, there⟩ := List.getElem?_eq_some_iff.mp at_k
  intro clash
  rcases Nat.lt_or_gt_of_ne different with before | after
  · have apart := pairs i k i_lt k_lt before
    rw [here, there] at apart
    exact apart.elim (staging_name_some named) fun apart => apart (named.trans clash.symm)
  · have apart := pairs k i k_lt i_lt after
    rw [here, there] at apart
    exact apart.elim (staging_name_some clash) fun apart => apart (clash.trans named.symm)

theorem matches_same {other : Artifact} {content : Content} (good : artifact.Matches content)
    (same : artifact.bytes = other.bytes ∧ artifact.sha256 = other.sha256) : other.Matches content where
  sized := by
    have sized := good.sized
    rw [Artifact.sized, same.1] at sized
    exact sized
  hash := same.2.symm.trans good.hash

end Lookups

variable {w : Nat} {id : Bytes}

section Steps

variable {gateway : Gateway} {first : Place → Option Content} {world : World}

theorem live_unacked (inv : Inv gateway first world) {worker : Worker}
    (there : world.workers w = some worker) (live : worker.phase.live = true) : worker.job ∉ world.acked := by
  intro acked
  obtain ⟨job, found, working⟩ := inv.working w worker there live
  rw [over_rests (inv.acked _ acked job found)] at working
  cases working

theorem live_unqueued (inv : Inv gateway first world) {worker : Worker}
    (there : world.workers w = some worker) (live : worker.phase.live = true) (i : Nat) : world.handlers i ≠ .queued worker.job :=
  fun waits => (inv.queued i _ waits).2.1 w worker there live rfl

theorem kept_inv (separate : Separate gateway) (inv : Inv gateway first world) : Kept gateway first world where
  published := by
    intro artifact known path installPath there
    obtain ⟨⟨w, other⟩, found⟩ := Option.isSome_iff_exists.mp there
    obtain ⟨known', ⟨path', installPath', same⟩, ⟨content, held, good⟩, _⟩ := inv.published _ w other found
    exact ⟨content, held, matches_same good
      (separate.installed other known' artifact known path' path installPath' installPath same)⟩
  installed := inv.installed
  untouched := inv.untouched
  committed := fun place w artifact found => (inv.published place w artifact found).2.2.2
  canceled := by
    intro id acked
    refine ⟨?_, ?_⟩
    · intro job found installed
      have ended := inv.acked id acked job found
      rw [installed] at ended
      cases ended
    · intro w worker there own
      rw [← Bool.not_eq_true]
      intro live
      subst own
      exact live_unacked inv there live acked

theorem inv_slot (inv : Inv gateway first world) (active : Option Bytes) (stopSignal : Option Stop) (curlPid : Option Nat) :
    Inv gateway first { world with active := active, stopSignal := stopSignal, curlPid := curlPid } where
  working := inv.working
  apart := inv.apart
  sole := inv.sole
  standing := fun w id job stage there =>
    ⟨(inv.standing w id job stage there).verified, (inv.standing w id job stage there).sized,
      (inv.standing w id job stage there).published⟩
  queued := inv.queued
  acked := inv.acked
  staging := inv.staging
  installed := inv.installed
  published := inv.published
  untouched := inv.untouched

variable {job : InstallJob} {phase : Phase}

theorem standing_frame {world' : World} {stage : Stage} (standing : Standing gateway world w id job stage)
    (files : ∀ name, world'.files (.staged id name) = world.files (.staged id name))
    (publishes : ∀ pair ∈ world.publishes, pair ∈ world'.publishes)
    (committed : ∀ w ∈ world.committed, w ∈ world'.committed) : Standing gateway world' w id job stage where
  verified := by
    intro k artifact inside covers
    obtain ⟨name, content, named, held, good⟩ := standing.verified k artifact inside covers
    exact ⟨name, content, named, (files name).trans held, good⟩
  sized := by
    intro i artifact verifying inside
    obtain ⟨name, content, named, held, good⟩ := standing.sized i artifact verifying inside
    exact ⟨name, content, named, (files name).trans held, good⟩
  published := by
    intro i publishing
    obtain ⟨began, done⟩ := standing.published i publishing
    exact ⟨committed w began, fun k artifact before inside => publishes _ (done k artifact before inside)⟩

theorem inv_handle (inv : Inv gateway first world) (i : Nat) {handler : Handler}
    (waits : ∀ id, handler = .queued id → (∃ job, world.jobs id = some job ∧ job.state.working = true) ∧
      (∀ w worker, world.workers w = some worker → worker.phase.live = true → worker.job ≠ id) ∧
        ∀ i', world.handlers i' ≠ .queued id) : Inv gateway first (world.handle i handler) where
  working := inv.working
  apart := inv.apart
  sole := inv.sole
  standing := by
    intro w id job stage there
    apply standing_frame (inv.standing w id job stage there)
    case files => exact fun _ => rfl
    case publishes => exact fun _ member => member
    case committed => exact fun _ member => member
  queued := by
    intro j id found
    change update world.handlers i handler j = .queued id at found
    change _ ∧ _ ∧ ∀ i', update world.handlers i handler i' = .queued id → i' = j
    by_cases own : j = i
    · subst own
      rw [update_self] at found
      obtain ⟨working, unheld, none_⟩ := waits id found
      refine ⟨working, unheld, ?_⟩
      intro i' found'
      by_cases own : i' = j
      · exact own
      · rw [update_of_ne own] at found'
        exact absurd found' (none_ i')
    · rw [update_of_ne own] at found
      obtain ⟨working, unheld, unique⟩ := inv.queued j id found
      refine ⟨working, unheld, ?_⟩
      intro i' found'
      rcases update_cases found' with ⟨rfl, found''⟩ | ⟨_, found'⟩
      · exact absurd found ((waits id found'').2.2 j)
      · exact unique i' found'
  acked := inv.acked
  staging := inv.staging
  installed := inv.installed
  published := inv.published
  untouched := inv.untouched

theorem inv_proceed (inv : Inv gateway first world) (i : Nat) {handler : Handler} (other : ∀ id, handler ≠ .queued id) :
    Inv gateway first (world.handle i handler) :=
  inv_handle inv i fun id same => absurd same (other id)

theorem inv_ack (inv : Inv gateway first world)
    (ended : ∀ job, world.jobs id = some job → job.state.over = true) : Inv gateway first (world.ack id) where
  working := inv.working
  apart := inv.apart
  sole := inv.sole
  standing := by
    intro w id job stage there
    apply standing_frame (inv.standing w id job stage there)
    case files => exact fun _ => rfl
    case publishes => exact fun _ member => member
    case committed => exact fun _ member => member
  queued := inv.queued
  acked := by
    intro id' member
    rcases List.mem_cons.mp member with rfl | member
    · exact ended
    · exact inv.acked id' member
  staging := inv.staging
  installed := inv.installed
  published := inv.published
  untouched := inv.untouched

structure Unheld (world : World) (id : Bytes) : Prop where
  workers : ∀ w worker, world.workers w = some worker → worker.phase.live = true → worker.job ≠ id
  handlers : ∀ i, world.handlers i ≠ .queued id

theorem unheld_of (inv : Inv gateway first world)
    (rests : ∀ job, world.jobs id = some job → job.state.working = false) : Unheld world id where
  workers := by
    intro w worker there live own
    obtain ⟨job, found, working⟩ := inv.working w worker there live
    rw [own] at found
    rw [rests job found] at working
    cases working
  handlers := by
    intro i waits
    obtain ⟨job, found, working⟩ := (inv.queued i id waits).1
    rw [rests job found] at working
    cases working

theorem inv_save (inv : Inv gateway first world) (saved : Bool) (holds : job.state.working = true ∨ Unheld world id)
    (acked : id ∈ world.acked → job.state.over = true)
    (installed : job.state = .installed → ∀ artifact ∈ gateway.artifacts job, (id, artifact) ∈ world.publishes) :
    Inv gateway first (world.save id job saved) := by
  cases saved with
  | false => exact inv
  | true =>
    constructor
    case working =>
      intro w worker there live
      change ∃ found, update world.jobs id (some job) worker.job = some found ∧ _
      by_cases own : worker.job = id
      · rw [own, update_self]
        exact ⟨job, rfl, holds.resolve_right fun unheld => unheld.workers w worker there live own⟩
      · rw [update_of_ne own]
        exact inv.working w worker there live
    case apart => exact inv.apart
    case sole => exact inv.sole
    case standing =>
      intro w id job stage there
      apply standing_frame (inv.standing w id job stage there)
      case files => exact fun _ => rfl
      case publishes => exact fun _ member => member
      case committed => exact fun _ member => member
    case queued =>
      intro i id' waits
      obtain ⟨working, rest⟩ := inv.queued i id' waits
      refine ⟨?_, rest⟩
      change ∃ found, update world.jobs id (some job) id' = some found ∧ _
      by_cases own : id' = id
      · subst own
        rw [update_self]
        exact ⟨job, rfl, holds.resolve_right fun unheld => unheld.handlers i waits⟩
      · rw [update_of_ne own]
        exact working
    case acked =>
      intro id' member job' found
      rcases update_cases found with ⟨rfl, ⟨⟩⟩ | ⟨_, found⟩
      · exact acked member
      · exact inv.acked id' member job' found
    case staging => exact inv.staging
    case installed =>
      intro id' job' found state
      rcases update_cases found with ⟨rfl, ⟨⟩⟩ | ⟨_, found⟩
      · exact installed state
      · exact inv.installed id' job' found state
    case published => exact inv.published
    case untouched => exact inv.untouched

structure Ready (gateway : Gateway) (world : World) (w : Nat) (id : Bytes) (phase : Phase) : Prop where
  working : ∃ job, world.jobs id = some job ∧ job.state.working = true
  alone : ∀ w' worker, world.workers w' = some worker → worker.phase.live = true → worker.job = id → w' = w
  unqueued : ∀ i, world.handlers i ≠ .queued id
  sole : ∀ c name, world.curls c = some ⟨.staged id name, none⟩ → Fetches gateway phase c name
  standing : ∀ job stage, phase = .holding job stage → Standing gateway world w id job stage

theorem inv_work (inv : Inv gateway first world) {w : Nat} {id : Bytes} {phase : Phase}
    (ready : phase.live = true → Ready gateway world w id phase) : Inv gateway first (world.work w ⟨id, phase⟩) := by
  have before : ∀ w' worker, (world.work w ⟨id, phase⟩).workers w' = some worker →
      (w' = w ∧ worker = ⟨id, phase⟩) ∨ (w' ≠ w ∧ world.workers w' = some worker) := by
    intro w' worker found
    rcases update_cases found with ⟨rfl, ⟨⟩⟩ | ⟨own, found⟩
    · exact .inl ⟨rfl, rfl⟩
    · exact .inr ⟨own, found⟩
  constructor
  case working =>
    intro w' worker found live
    rcases before w' worker found with ⟨_, same⟩ | ⟨_, other⟩
    · subst same
      exact (ready live).working
    · exact inv.working w' worker other live
  case apart =>
    intro w' worker w'' worker' found found' live live' same
    rcases before w' worker found with ⟨own, this⟩ | ⟨_, other⟩
    · subst this
      rcases before w'' worker' found' with ⟨own', _⟩ | ⟨_, other'⟩
      · exact own.trans own'.symm
      · exact own.trans ((ready live).alone w'' worker' other' live' same.symm).symm
    · rcases before w'' worker' found' with ⟨own', this⟩ | ⟨_, other'⟩
      · subst this
        exact ((ready live').alone w' worker other live same).trans own'.symm
      · exact inv.apart w' worker w'' worker' other other' live live' same
  case sole =>
    intro w' worker found live
    rcases before w' worker found with ⟨_, same⟩ | ⟨_, other⟩
    · subst same
      exact (ready live).sole
    · exact inv.sole w' worker other live
  case standing =>
    intro w' id' job stage found
    have standing : Standing gateway world w' id' job stage := by
      rcases before w' _ found with ⟨own, same⟩ | ⟨_, other⟩
      · cases same
        subst own
        exact (ready rfl).standing job stage rfl
      · exact inv.standing w' id' job stage other
    apply standing_frame standing
    case files => exact fun _ => rfl
    case publishes => exact fun _ member => member
    case committed => exact fun _ member => member
  case queued =>
    intro i id' waits
    obtain ⟨working, unheld, unique⟩ := inv.queued i id' waits
    refine ⟨working, ?_, unique⟩
    intro w' worker found live
    rcases before w' worker found with ⟨_, same⟩ | ⟨_, other⟩
    · subst same
      intro own
      subst own
      exact (ready live).unqueued i waits
    · exact unheld w' worker other live
  case acked => exact inv.acked
  case staging => exact inv.staging
  case installed => exact inv.installed
  case published => exact inv.published
  case untouched => exact inv.untouched

theorem inv_hold (inv : Inv gateway first world) {stage : Stage}
    (there : world.workers w = some ⟨id, phase⟩) (live : phase.live = true)
    (sole : ∀ c name, world.curls c = some ⟨.staged id name, none⟩ → Fetches gateway (.holding job stage) c name)
    (standing : Standing gateway world w id job stage) : Inv gateway first (world.hold w id job stage) := by
  apply inv_work inv
  intro _
  constructor
  case working => exact inv.working w _ there live
  case alone => exact fun w' worker found live' own => inv.apart w' worker w _ found there live' live own
  case unqueued => exact live_unqueued inv there live
  case sole => exact sole
  case standing =>
    intro job' stage' same
    cases same
    exact standing

theorem inv_leave (inv : Inv gateway first world) (w : Nat) (id : Bytes) {phase : Phase} (dead : phase.live = false) :
    Inv gateway first (world.work w ⟨id, phase⟩) := by
  apply inv_work inv
  intro live
  rw [dead] at live
  cases live

theorem inv_place (separate : Separate gateway) (inv : Inv gateway first world) {id name : Bytes} (content : Option Content)
    (free : ∀ w job stage, world.workers w = some ⟨id, .holding job stage⟩ →
      ∀ k artifact, (gateway.artifacts job)[k]? = some artifact → artifact.stagingName = some name →
        ¬stage.covers k ∧ stage ≠ .verifying k) : Inv gateway first (world.place (.staged id name) content) := by
  have held : ∀ w id' job stage, world.workers w = some ⟨id', .holding job stage⟩ →
      ∀ k artifact, (gateway.artifacts job)[k]? = some artifact → stage.covers k ∨ stage = .verifying k →
        ∀ holds, Held world id' artifact holds → Held (world.place (.staged id name) content) id' artifact holds := by
    intro w id' job stage found k artifact inside relied holds there
    obtain ⟨name', content', named, here, good⟩ := there
    refine ⟨name', content', named, ?_, good⟩
    change update world.files (.staged id name) content (.staged id' name') = some content'
    rw [update_of_ne, here]
    intro same
    cases same
    obtain ⟨uncovered, other⟩ := free w job stage found k artifact inside named
    exact relied.elim uncovered other
  constructor
  case working => exact inv.working
  case apart => exact inv.apart
  case sole => exact inv.sole
  case standing =>
    intro w id' job stage found
    have standing := inv.standing w id' job stage found
    constructor
    case verified =>
      intro k artifact inside covers
      exact held w id' job stage found k artifact inside (.inl covers) _ (standing.verified k artifact inside covers)
    case sized =>
      intro i artifact verifying inside
      exact held w id' job stage found i artifact inside (.inr verifying) _ (standing.sized i artifact verifying inside)
    case published => exact standing.published
  case queued => exact inv.queued
  case acked => exact inv.acked
  case staging => exact inv.staging
  case installed => exact inv.installed
  case published =>
    intro place w artifact found
    obtain ⟨known, ⟨path, installPath, same⟩, ⟨content', there, good⟩, committed⟩ := inv.published place w artifact found
    refine ⟨known, ⟨path, installPath, same⟩, ⟨content', ?_, good⟩, committed⟩
    change update world.files (.staged id name) content place = some content'
    obtain ⟨file, home⟩ := separate.outside artifact known path installPath
    rw [update_of_ne, there]
    intro staged
    rw [staged, home] at same
    cases same
  case untouched =>
    intro path unpublished
    change update world.files (.staged id name) content (.home path) = _
    have other : Place.home path ≠ .staged id name := nofun
    rw [update_of_ne other]
    exact inv.untouched path unpublished

end Steps

end SamosaChat.Install
