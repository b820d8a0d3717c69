import SamosaChat.Backends.SwitchInv

set_option autoImplicit false

namespace SamosaChat.Backends

open Utf8 Text Durable Setup Runs Function

section Files

variable {calls : EventCalls} {file : Option Bytes} {backend : Backend}

theorem selected_persisted (backend : Backend) : selected (some (cstr (persisted backend))) = some backend := by
  cases backend <;> decide

theorem write_selection (calls : EventCalls) (backend : Backend) (file : Option Bytes) :
    writeSmallFile calls (persisted backend) file = (true, some (cstr (persisted backend))) ∨
      writeSmallFile calls (persisted backend) file = (false, file) := by
  cases writes : calls.writesFile with
  | true => exact .inl (written_file writes)
  | false => exact .inr (unwritten_file writes)

theorem last_append (initial : Backend) (commits : List Commit) (commit : Commit) :
    last initial (commits ++ [commit]) = commit.backend := by
  simp [last]

theorem sound_append {commits : List Commit} {commit : Commit} (committed : ∀ commit ∈ commits, commit.sound = true)
    (own : commit.sound = true) : ∀ other ∈ commits ++ [commit], other.sound = true := by
  intro other member
  rw [List.mem_append, List.mem_singleton] at member
  cases member with
  | inl before => exact committed other before
  | inr same =>
    subst same
    exact own

end Files

variable {phase : Phase}

section Steps

variable {initial : Backend} {world : World} {i : Nat}

theorem switches_of (here : (world.requests i).phase = phase) (switches : phase.switches = true) :
    (world.requests i).phase.switches = true := by
  rw [here]
  exact switches

theorem quiet_of (here : (world.requests i).phase = phase) (quiet : phase.switches = false) :
    (world.requests i).phase.switches = false := by
  rw [here]
  exact quiet

theorem locks_of {next : Phase} (here : (world.requests i).phase = phase) (same : next.locks = phase.locks) :
    next.locks = (world.requests i).phase.locks := by
  rw [here]
  exact same

theorem jobs_of {next : Phase} (here : (world.requests i).phase = phase) (same : next.jobs = phase.jobs) :
    next.jobs = (world.requests i).phase.jobs := by
  rw [here]
  exact same

theorem active_free (inv : Inv initial world) (here : (world.requests i).phase = phase)
    (locks : phase.locks = true) : world.active = none := by
  rw [← here, inv.owned.locks] at locks
  cases inv.owned.apart with
  | inl free => rw [free] at locks; cases locks
  | inr free => exact free

theorem held_of (inv : Inv initial world) (going : world.stopping = false)
    (here : (world.requests i).phase = phase) (switches : phase.switches = true) :
    Held (last initial world.commits) world.backend world.selectionFile (world.jobs i)
      { world.requests i with phase := phase } := by
  have held := inv.held going i (switches_of here switches)
  rw [← here]
  exact held

theorem noted_of (inv : Inv initial world) (here : (world.requests i).phase = phase) :
    Noted world.stopping (world.jobs i) { world.requests i with phase := phase } := by
  rw [← here]
  exact inv.noted i

theorem harmless_answer (request : Request) (status : Nat) (code : String)
    (harmless : world.stopping = false → 400 ≤ status → request.profileChanged = false ∧ request.fresh) :
    (⟨i, status, code, request.profileChanged, request.fileChanged, request.backendChanged, world.stopping⟩ :
      Response).harmless := by
  intro going high
  exact harmless going high

section Switching

variable (inv : Inv initial world)
include inv

theorem inv_respond (was : (world.requests i).phase.switches = false) (status : Nat) (code : String)
    (harmless : world.stopping = false → 400 ≤ status → (world.requests i).profileChanged = false ∧ (world.requests i).fresh) :
    Inv initial (respond world i status code) := by
  refine inv_quiet inv was ?_ ?_ ?_
  · rfl
  · trivial
  · exact harmless_append inv.refused (harmless_answer _ status code harmless)

theorem inv_moved (was : (world.requests i).phase.switches = false)
    (now : phase.switches = false) (noted : Noted world.stopping (world.jobs i) { world.requests i with phase := phase }) :
    Inv initial (moved world i phase) :=
  inv_quiet inv was now noted inv.refused

theorem inv_arrive (here : (world.requests i).phase = .outside) (name version : Option Bytes) :
    Inv initial (arrive world i name version) := by
  have quiet := quiet_of here rfl
  have noted : (world.requests i).profileChanged = false ∧ (world.requests i).fresh := noted_of inv here
  unfold arrive
  cases name.bind backendNamed with
  | none => exact inv_respond inv quiet 400 "invalid_backend" fun _ _ => noted
  | some backend =>
    dsimp only
    split
    case isTrue => exact inv_respond inv quiet 409 "backend_unavailable" fun _ _ => noted
    case isFalse =>
      refine inv_quiet inv quiet ?_ ?_ inv.refused
      · rfl
      · exact ⟨⟨rfl, rfl⟩, fun virtual => beq_iff_eq.mpr virtual⟩

variable {name : Backend}

theorem inv_save_profile {version : Option Bytes} {p : Option Profile}
    (here : (world.requests i).phase = .loaded name version p) (calls : EventCalls) (now : Stamp) :
    Inv initial (saveProfile world i name version p calls now) := by
  have noted : (world.requests i).fresh ∧ (name = .molmo2 → (world.requests i).ready = true) := noted_of inv here
  refine inv_quiet inv (quiet_of here rfl) ?_ ?_ inv.refused
  · rfl
  · exact noted

theorem inv_check (here : (world.requests i).phase = .stored name)
    (good : world.stopping = false → world.generating = true → kept world i = true) :
    Inv initial (if world.generating then respond world i 409 "generation_active" else moved world i (.admitted name)) := by
  have noted : (world.requests i).fresh ∧ (name = .molmo2 → (world.requests i).ready = true) := noted_of inv here
  split
  case isTrue generating =>
    apply inv_respond inv (quiet_of here rfl) 409 "generation_active"
    intro going _
    exact ⟨(Bool.not_eq_true' _).mp (good going generating), noted.1⟩
  case isFalse => exact inv_moved inv (quiet_of here rfl) rfl noted

theorem inv_compare_direct (here : (world.requests i).phase = .admitted name) :
    Inv initial (moved world i (if name ≠ world.backend ∧ name = .molmo2 then .direct else .comparing name)) := by
  have noted : (world.requests i).fresh ∧ (name = .molmo2 → (world.requests i).ready = true) := noted_of inv here
  split
  case isTrue virtual => exact inv_moved inv (quiet_of here rfl) rfl ⟨noted.1, noted.2 virtual.2⟩
  case isFalse => exact inv_moved inv (quiet_of here rfl) rfl noted.1

theorem inv_compare (here : (world.requests i).phase = .comparing name) :
    Inv initial (if name ≠ world.backend then moved world i (.waiting name) else respond world i 202 "") := by
  have noted : (world.requests i).fresh := noted_of inv here
  split
  case isTrue => exact inv_moved inv (quiet_of here rfl) rfl noted
  case isFalse =>
    apply inv_respond inv (quiet_of here rfl) 202 ""
    intro _ high
    omega

theorem begun_rest (free : world.locked = none) (idle : world.active = none) (going : world.stopping = false) :
    Begun (last initial world.commits) world.selectionFile world.selectionFile world.backend := by
  obtain ⟨names, same⟩ := inv.rest going free idle
  exact ⟨same, rfl, names⟩

theorem owned_idle (free : world.locked = none) (idle : world.active = none) : Owned world.requests none none := by
  have owned := inv.owned
  rw [free, idle] at owned
  exact owned

theorem inv_take_direct (here : (world.requests i).phase = .direct) (free : world.locked = none)
    (good : world.stopping = false → world.active.isSome = true → kept world i = true) : Inv initial (takeDirect world i) := by
  have noted : (world.requests i).fresh ∧ (world.requests i).ready = true := noted_of inv here
  unfold takeDirect
  split
  case isTrue busy =>
    apply inv_respond inv (quiet_of here rfl) 409 "selection_busy"
    intro going _
    exact ⟨(Bool.not_eq_true' _).mp (good going busy), noted.1⟩
  case isFalse idle =>
    rw [Bool.not_eq_true, Option.isSome_eq_false_iff, Option.isNone_iff_eq_none] at idle
    refine inv_switching inv rfl ?_ rfl (fun _ _ => rfl) rfl ⟨noted.1, noted.2, ?_⟩ ?_ inv.committed rfl inv.refused
    · change Owned _ (some i) world.active
      rw [idle]
      exact owned_locked (owned_idle inv free idle) rfl rfl
    · rfl
    · intro going
      have begun := begun_rest inv free idle going
      exact ⟨begun, rfl⟩

theorem inv_take (here : (world.requests i).phase = .waiting name) (free : world.locked = none) (generates saves : Bool)
    (good : world.stopping = false → world.active.isSome = true ∨ generates = false ∨ saves = false → kept world i = true) :
    Inv initial (take world i name generates saves) := by
  have noted : (world.requests i).fresh := noted_of inv here
  have quiet := quiet_of here rfl
  have refused : ∀ status code, (world.active.isSome = true ∨ generates = false ∨ saves = false) →
      Inv initial (respond world i status code) := by
    intro status code cause
    apply inv_respond inv quiet status code
    intro going _
    exact ⟨(Bool.not_eq_true' _).mp (good going cause), noted⟩
  unfold take
  split
  case isTrue busy => exact refused 409 "selection_busy" (.inl busy)
  case isFalse idle =>
    rw [Bool.not_eq_true, Option.isSome_eq_false_iff, Option.isNone_iff_eq_none] at idle
    split
    case isTrue fails => exact refused 500 "internal" (.inr (.inl ((Bool.not_eq_true' _).mp fails)))
    case isFalse =>
      split
      case isTrue fails => exact refused 500 "internal" (.inr (.inr ((Bool.not_eq_true' _).mp fails)))
      case isFalse =>
        refine inv_switching inv rfl ?_ rfl ?_ rfl ?_ ?_ inv.committed rfl inv.refused
        · change Owned _ world.locked (some i)
          rw [free]
          exact owned_active (owned_idle inv free idle) rfl rfl
        · intro j other
          exact update_of_ne other _ _
        · exact ⟨noted, update_self _ _ _⟩
        · intro going
          have begun := begun_rest inv free idle going
          exact ⟨update_self _ _ _, begun⟩

theorem inv_write_direct {previous : Backend} (here : (world.requests i).phase = .writing previous) (calls : EventCalls) :
    Inv initial (writeDirect world i previous calls) := by
  have was := switches_of here rfl
  have noted : (world.requests i).fresh ∧ (world.requests i).ready = true ∧ (world.requests i).unchanged = true :=
    noted_of inv here
  have idle := active_free inv here rfl
  unfold writeDirect
  cases write_selection calls .molmo2 world.selectionFile with
  | inl written =>
    rw [written]
    refine inv_end inv was (update_idem _ _ _) rfl rfl ?_ rfl rfl ?_ ?_ inv.rolledBack ?_
    · exact idle
    · intro going
      obtain ⟨_, virtual⟩ := held_of inv going here rfl
      change selected (some (cstr (persisted .molmo2))) = some world.backend ∧ world.backend = last initial (_ ++ [_])
      rw [last_append, virtual]
      exact ⟨selected_persisted .molmo2, rfl⟩
    · exact sound_append inv.committed (by rw [Commit.sound, noted.2.1, noted.2.2]; rfl)
    · apply harmless_append inv.refused
      intro _ high
      change 400 ≤ 202 at high
      omega
  | inr refused =>
    rw [refused]
    refine inv_switching inv rfl (owned_same inv.owned (locks_of here rfl) (jobs_of here rfl)) rfl (fun _ _ => rfl) rfl
      noted.1 ?_ inv.committed rfl inv.refused
    intro going
    exact (held_of inv going here rfl).1

end Switching

theorem failure_append {failures : List Failure} {failure : Failure} (rolledBack : ∀ failure ∈ failures, failure.rolledBack)
    (own : failure.rolledBack) : ∀ other ∈ failures ++ [failure], other.rolledBack := by
  intro other member
  rw [List.mem_append, List.mem_singleton] at member
  cases member with
  | inl before => exact rolledBack other before
  | inr same =>
    subst same
    exact own

theorem unchanged_of {changed now : Option Backend} (same : now = changed) : (now != changed) = false := by
  rw [same, bne_self_eq_false]

section Undoing

variable (inv : Inv initial world)
include inv

theorem inv_undo_direct {previous : Backend} (here : (world.requests i).phase = .undoing previous) (starts : Bool)
    (good : world.stopping = false → kept world i = true ∧ restored world previous starts = (world.requests i).ran) :
    Inv initial (undoDirect world i previous starts) := by
  have noted : (world.requests i).fresh := noted_of inv here
  have idle := active_free inv here rfl
  refine inv_end inv (switches_of here rfl) (update_idem _ _ _) rfl rfl idle rfl rfl ?_ inv.committed ?_ ?_
  · intro going
    have begun : Begun _ _ _ previous := held_of inv going here rfl
    exact ⟨begun.names, begun.last⟩
  · apply failure_append inv.rolledBack
    intro going
    have begun : Begun _ _ _ previous := held_of inv going here rfl
    refine ⟨?_, rfl⟩
    change world.selectionFile = (update world.requests i _ i).before
    rw [update_self]
    exact begun.same
  · apply harmless_append inv.refused
    intro going _
    obtain ⟨stayed, same⟩ := good going
    simp only [failed, set, update_self]
    exact ⟨(Bool.not_eq_true' _).mp stayed, noted.1, unchanged_of same⟩

variable {job : SelectionJob}

theorem inv_start (here : (world.requests i).phase = .starting job) (starts : Bool) : Inv initial (start world i job starts) := by
  have noted : (world.requests i).fresh ∧ world.jobs i = some job := noted_of inv here
  have was := switches_of here rfl
  unfold start
  cases started : backendStart world job.requestedBackend starts with
  | none =>
    refine inv_switching inv rfl (owned_same inv.owned (locks_of here rfl) (jobs_of here rfl)) rfl (fun _ _ => rfl) rfl
      noted.1 ?_ inv.committed rfl inv.refused
    intro going
    exact (held_of inv going here rfl).2
  | some child =>
    refine inv_switching inv rfl (owned_same inv.owned (locks_of here rfl) (jobs_of here rfl)) rfl (fun _ _ => rfl) rfl
      ⟨noted.1, ?_⟩ ?_ inv.committed rfl ?_
    · change (world.jobs i).isSome = true
      rw [noted.2]
      rfl
    · intro going
      obtain ⟨made, begun⟩ := held_of inv going here rfl
      exact ⟨job, made, begun, rfl⟩
    · apply harmless_append inv.refused
      intro _ high
      change 400 ≤ 202 at high
      omega

theorem inv_load (here : (world.requests i).phase = .loading) {reads : Bool}
    (good : reads = true) : Inv initial (load world i reads) := by
  have noted : (world.requests i).fresh ∧ (world.jobs i).isSome = true := noted_of inv here
  obtain ⟨job, made⟩ := Option.isSome_iff_exists.mp noted.2
  subst good
  unfold load
  rw [made]
  refine inv_switching inv rfl (owned_same inv.owned (locks_of here rfl) (jobs_of here rfl)) rfl (fun _ _ => rfl) rfl
    noted.1 ?_ inv.committed rfl inv.refused
  intro going
  obtain ⟨own, same, held⟩ := held_of inv going here rfl
  rw [made] at same
  cases same
  exact held

theorem inv_failing (here : (world.requests i).phase = phase) (locks : false = phase.locks) (jobs : true = phase.jobs)
    (noted : (world.requests i).fresh) (begun : world.stopping = false →
      Begun (last initial world.commits) world.selectionFile (world.requests i).before job.previousBackend)
    (code : String) : Inv initial (moved world i (.failing job code false)) := by
  have switches : (world.requests i).phase.switches = true := by
    rw [here, Phase.switches, ← locks, ← jobs]
    rfl
  exact inv_switching inv rfl (owned_same inv.owned (locks_of here locks) (jobs_of here jobs)) rfl (fun _ _ => rfl) rfl
    noted begun inv.committed rfl inv.refused

theorem inv_see_stopping (here : (world.requests i).phase = .polling job)
    (stopping : world.stopping = true) : Inv initial (moved world i (.failed job "gateway_shutdown" false)) := by
  refine inv_switching inv rfl (owned_same inv.owned (locks_of here rfl) (jobs_of here rfl)) rfl (fun _ _ => rfl) rfl
    trivial ?_ inv.committed rfl inv.refused
  intro going
  rw [stopping] at going
  cases going

theorem inv_see_ready (here : (world.requests i).phase = .polling job) :
    Inv initial (set world i { world.requests i with phase := .checking job, ready := true }) := by
  have noted : (world.requests i).fresh := noted_of inv here
  refine inv_switching inv rfl (owned_same inv.owned (locks_of here rfl) (jobs_of here rfl)) rfl (fun _ _ => rfl) rfl
    ⟨noted, rfl⟩ ?_ inv.committed rfl inv.refused
  intro going
  exact held_of inv going here rfl

theorem inv_fingerprint (here : (world.requests i).phase = .checking job) : Inv initial (checkFingerprint world i job) := by
  have noted : (world.requests i).fresh ∧ (world.requests i).ready = true := noted_of inv here
  unfold checkFingerprint
  split
  case isTrue =>
    refine inv_switching inv rfl (owned_same inv.owned (locks_of here rfl) (jobs_of here rfl)) rfl (fun _ _ => rfl) rfl
      ⟨noted.1, noted.2, rfl⟩ ?_ inv.committed rfl inv.refused
    intro going
    exact held_of inv going here rfl
  case isFalse =>
    exact inv_failing inv here rfl rfl noted.1 (fun going => (held_of inv going here rfl).1) "fingerprint_mismatch"

theorem inv_commit (here : (world.requests i).phase = .committing job)
    (calls : EventCalls) : Inv initial (commit world i job calls) := by
  have noted : (world.requests i).fresh ∧ (world.requests i).ready = true ∧ (world.requests i).unchanged = true :=
    noted_of inv here
  unfold commit
  cases write_selection calls job.requestedBackend world.selectionFile with
  | inl written =>
    rw [written]
    refine inv_switching inv rfl (owned_same inv.owned (locks_of here rfl) (jobs_of here rfl)) rfl (fun _ _ => rfl) rfl
      trivial ?_ ?_ rfl inv.refused
    · intro going
      obtain ⟨_, same⟩ := held_of inv going here rfl
      change selected (some (cstr (persisted job.requestedBackend))) = some world.backend ∧
        world.backend = last initial (_ ++ [_])
      rw [last_append, same]
      exact ⟨selected_persisted job.requestedBackend, rfl⟩
    · exact sound_append inv.committed (by rw [Commit.sound, noted.2.1, noted.2.2]; rfl)
  | inr refused =>
    rw [refused]
    exact inv_failing inv here rfl rfl noted.1 (fun going => (held_of inv going here rfl).1) "registry_commit_failed"

theorem inv_restore {code : String} {answers : Bool} (here : (world.requests i).phase = .failing job code answers) (starts : Bool)
    (good : answers = true → world.stopping = false →
      kept world i = true ∧ restored world job.previousBackend starts = (world.requests i).ran) :
    Inv initial (restore world i job code answers starts) := by
  have noted : (world.requests i).fresh := noted_of inv here
  refine inv_switching inv rfl (owned_same inv.owned (locks_of here rfl) (jobs_of here rfl)) rfl (fun _ _ => rfl) rfl
    ?_ ?_ inv.committed rfl inv.refused
  · cases answers with
    | false => trivial
    | true =>
      intro going
      obtain ⟨stayed, same⟩ := good rfl going
      exact ⟨(Bool.not_eq_true' _).mp stayed, noted.1, unchanged_of same⟩
  · intro going
    exact ⟨held_of inv going here rfl, rfl⟩

theorem inv_clear_failed {code : String} {answers : Bool}
    (here : (world.requests i).phase = .failed job code answers) (free : world.locked = none) :
    Inv initial (clearFailed world i job code answers) := by
  have was := switches_of here rfl
  have rest : world.stopping = false →
      selected world.selectionFile = some world.backend ∧ world.backend = last initial world.commits := by
    intro going
    obtain ⟨begun, same⟩ := held_of inv going here rfl
    rw [same]
    exact ⟨begun.names, begun.last⟩
  have rolledBack : ∀ failure ∈ (failed { world with active := none } job.previousBackend i code).failures,
      failure.rolledBack := by
    apply failure_append inv.rolledBack
    intro going
    obtain ⟨begun, same⟩ := held_of inv going here rfl
    exact ⟨begun.same, same⟩
  unfold clearFailed
  cases answers with
  | false => exact inv_end inv was rfl rfl free rfl rfl rfl rest inv.committed rolledBack inv.refused
  | true =>
    have noted : world.stopping = false → (world.requests i).profileChanged = false ∧
        (world.requests i).fileChanged = false ∧ (world.requests i).backendChanged = false := noted_of inv here
    exact inv_end inv was rfl rfl free rfl rfl rfl rest inv.committed rolledBack
      (harmless_append inv.refused fun going _ => noted going)

theorem inv_clear (here : (world.requests i).phase = .committed) (free : world.locked = none) :
    Inv initial (moved { world with active := none } i .gone) :=
  inv_end inv (switches_of here rfl) rfl rfl free rfl rfl rfl (fun going => held_of inv going here rfl) inv.committed
    inv.rolledBack inv.refused

end Undoing

theorem noted_stop {stopping : Bool} {job : Option SelectionJob} {request : Request} (noted : Noted stopping job request) :
    Noted true job request := by
  unfold Noted at noted ⊢
  split at noted <;> first | exact noted | exact nofun

theorem inv_step (world : World) (event : Event) (inv : Inv initial world) (good : Good world event) :
    Inv initial (step world event) := by
  cases event with
  | arrive i name version =>
    simp only [step]
    split
    case h_1 here => exact inv_arrive inv here name version
    case h_2 => exact inv
  | profileLoad i calls =>
    simp only [step]
    split
    case h_1 name version here =>
      have noted : (world.requests i).fresh ∧ (name = .molmo2 → (world.requests i).ready = true) := noted_of inv here
      exact inv_moved inv (quiet_of here rfl) rfl noted
    case h_2 => exact inv
  | profileSave i calls now =>
    simp only [step]
    split
    case h_1 name version p here => exact inv_save_profile inv here calls now
    case h_2 => exact inv
  | check i =>
    simp only [step]
    split
    case h_1 name here =>
      rw [Good, here] at good
      exact inv_check inv here good
    case h_2 => exact inv
  | compareDirect i =>
    simp only [step]
    split
    case h_1 name here => exact inv_compare_direct inv here
    case h_2 => exact inv
  | compare i =>
    simp only [step]
    split
    case h_1 name here => exact inv_compare inv here
    case h_2 => exact inv
  | takeDirect i =>
    simp only [step]
    split
    case h_1 here free =>
      rw [Good, here] at good
      exact inv_take_direct inv here free good
    case h_2 => exact inv
  | writeDirect i calls =>
    simp only [step]
    split
    case h_1 previous here => exact inv_write_direct inv here calls
    case h_2 => exact inv
  | undoDirect i starts =>
    simp only [step]
    split
    case h_1 previous here =>
      rw [Good, here] at good
      exact inv_undo_direct inv here starts good
    case h_2 => exact inv
  | take i generates saves =>
    simp only [step]
    split
    case h_1 name here free =>
      rw [Good, here] at good
      exact inv_take inv here free generates saves good
    case h_2 => exact inv
  | start i starts =>
    simp only [step]
    split
    case h_1 job here => exact inv_start inv here starts
    case h_2 => exact inv
  | load i reads =>
    simp only [step]
    split
    case h_1 here =>
      rw [Good, here] at good
      exact inv_load inv here good
    case h_2 => exact inv
  | seeStopping i =>
    simp only [step]
    split
    case h_1 job here stopping => exact inv_see_stopping inv here stopping
    case h_2 => exact inv
  | seeDead i =>
    simp only [step]
    split
    case h_1 job here _ =>
      exact inv_failing inv here rfl rfl (noted_of inv here) (fun going => (held_of inv going here rfl).1) _
    case h_2 => exact inv
  | seeReady i =>
    simp only [step]
    split
    case h_1 job _ here _ => exact inv_see_ready inv here
    case h_2 => exact inv
  | expire i =>
    simp only [step]
    split
    case h_1 job here =>
      exact inv_failing inv here rfl rfl (noted_of inv here) (fun going => (held_of inv going here rfl).1) _
    case h_2 => exact inv
  | fingerprint i =>
    simp only [step]
    split
    case h_1 job here => exact inv_fingerprint inv here
    case h_2 => exact inv
  | commit i calls =>
    simp only [step]
    split
    case h_1 job here => exact inv_commit inv here calls
    case h_2 => exact inv
  | restore i starts =>
    simp only [step]
    split
    case h_1 job code answers here =>
      rw [Good, here] at good
      refine inv_restore inv here starts ?_
      intro own
      subst own
      exact good
    case h_2 => exact inv
  | clear i =>
    simp only [step]
    split
    case h_1 job code answers here free => exact inv_clear_failed inv here free
    case h_2 here free => exact inv_clear inv here free
    case h_3 => exact inv
  | crash => exact ⟨inv.owned, inv.noted, inv.held, inv.rest, inv.committed, inv.rolledBack, inv.refused⟩
  | generation active => exact ⟨inv.owned, inv.noted, inv.held, inv.rest, inv.committed, inv.rolledBack, inv.refused⟩
  | profileWritten file => exact ⟨inv.owned, inv.noted, inv.held, inv.rest, inv.committed, inv.rolledBack, inv.refused⟩
  | files available weights => exact ⟨inv.owned, inv.noted, inv.held, inv.rest, inv.committed, inv.rolledBack, inv.refused⟩
  | stop =>
    exact ⟨inv.owned, fun i => noted_stop (inv.noted i), nofun, nofun, inv.committed, inv.rolledBack, inv.refused⟩

theorem inv_settled (inv : Inv initial world) : Settled initial world where
  single i j := one_switch inv.owned
  named going idle := by
    obtain ⟨free, none_⟩ := idle_free inv.owned idle
    exact inv.rest going free none_
  committed := inv.committed
  rolledBack := inv.rolledBack
  refused := inv.refused

end Steps

section Runs

variable {file profile : Option Bytes} {available : Backend → Bool} {weights : Backend → Option Fingerprint}
  {starts : Bool}

theorem initial_selected (named : (selected file).any available = true) : selected file = some (initialBackend file available) := by
  cases some_ : selected file with
  | none =>
    rw [some_] at named
    cases named
  | some backend =>
    rw [some_] at named
    have there : available backend = true := named
    simp [initialBackend, some_, Option.filter, there]

theorem inv_new (named : (selected file).any available = true) :
    Inv (initialBackend file available) (newWorld file profile available weights starts) where
  owned := ⟨fun _ => ⟨nofun, nofun⟩, fun _ => ⟨nofun, nofun⟩, .inl rfl⟩
  noted _ := ⟨rfl, rfl, rfl⟩
  held _ _ := nofun
  rest _ _ _ := ⟨initial_selected named, rfl⟩
  committed := nofun
  rolledBack := nofun
  refused := nofun

end Runs

section Instances

def everywhere (_ : Backend) : Bool := true

def qwenFile : Option Bytes :=
  some (persisted .qwen)

def oneGigabyte (_ : Backend) : Option Fingerprint :=
  some ⟨1073741824, 1767225600, 0⟩

def running : World :=
  newWorld qwenFile none everywhere oneGigabyte true

def switched : List Event :=
  [.arrive 0 (some (utf8 "bonsai")) none, .profileLoad 0 calm, .profileSave 0 calm morning, .check 0, .compareDirect 0,
    .compare 0, .take 0 true true, .start 0 true, .load 0 true, .seeReady 0, .fingerprint 0, .commit 0 calm, .clear 0,
    .arrive 1 (some (utf8 "ornith")) none, .profileLoad 1 calm, .profileSave 1 calm morning, .check 1, .compareDirect 1,
    .compare 1, .take 1 true true, .start 1 true, .load 1 true, .crash, .seeDead 1, .restore 1 true, .clear 1]

instance (world : World) (event : Event) : Decidable (Good world event) := by
  unfold Good
  cases event <;> dsimp only <;> first | infer_instance | (split <;> infer_instance)

-- While a response is being generated a request for bonsai is answered with 409, and the profile names bonsai.
def refusedRun : List Event :=
  [.generation true, .arrive 0 (some (utf8 "bonsai")) none, .profileLoad 0 calm, .profileSave 0 calm morning, .check 0]

end Instances

end SamosaChat.Backends
