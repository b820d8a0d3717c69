import SamosaChat.Chutni.Build
import SamosaChat.Lib.Text

set_option autoImplicit false

namespace SamosaChat.Chutni

open Utf8 Text Runs Function

def Holds (world : World) (build : Build) : Nat ⊕ Nat → Prop
  | .inl i => world.handlers i = .claimed build ∨ world.handlers i = .queued build
  | .inr w => ∃ phase, world.workers w = some ⟨build, phase⟩ ∧ phase.running = true

def Heard (world : World) (build : Build) : Phase → Prop
  | .starting | .scanning _ | .serviced _ _ | .enriched _ _ => world.control ≠ .run
  | .concluded final => final = .pausedUser ∨ final = .canceled
  | .closing => stoppedRecord (world.jobs build.scope) build.job = true
  | .gone => False

structure Inv (world : World) : Prop where
  holder : ∀ x build, Holds world build x → world.active = some (build.scope, build.job)
  single : ∀ x y a b, Holds world a x → Holds world b y → x = y
  aim : ∀ scope active job, world.aim = some scope → world.active = some (active, job) → active = scope
  stops : ∀ stop ∈ world.stops, stop.1 = stop.2
  asked : world.asked = true → ∃ w build phase, world.workers w = some ⟨build, phase⟩ ∧ Heard world build phase
  canceling : ∀ scope record, world.jobs scope = some record → record.state = .canceling →
    ∃ w build phase, world.workers w = some ⟨build, phase⟩ ∧ build.scope = scope ∧ phase.unfinished = true
  reached : ∀ scope record, world.reached scope = some record → world.jobs scope = some record ∧
    ∀ x build, Holds world build x → build.scope = scope → ∃ w, x = .inr w ∧ world.workers w = some ⟨build, .closing⟩
  final : ∀ w build final, world.workers w = some ⟨build, .concluded final⟩ → final ≠ .canceling
  missed : world.missed = []
  torn : world.torn = []

variable {world : World}

theorem unfinished_running {phase : Phase} (unfinished : phase.unfinished = true) : phase.running = true := by
  cases phase with
  | gone => cases unfinished
  | _ => rfl

theorem looks_unfinished {phase : Phase} (looks : phase.looks = true) : phase.unfinished = true := by
  cases phase with
  | concluded _ => cases looks
  | closing => cases looks
  | gone => cases looks
  | _ => rfl

theorem heard_running {build : Build} {phase : Phase} (heard : Heard world build phase) : phase.running = true := by
  cases phase with
  | gone => exact heard.elim
  | _ => rfl

theorem inv_scoped (inv : Inv world) : Scoped world where
  aimed := inv.stops
  kept scope record found := (inv.reached scope record found).1
  ended := inv.missed
  whole := inv.torn
  single w v worker other there running there' running' := by
    have same := inv.single (.inr w) (.inr v) worker.build other.build ⟨_, there, running⟩ ⟨_, there', running'⟩
    cases same
    rfl
  settled idle scope record found canceling := by
    obtain ⟨w, build, phase, there, _, unfinished⟩ := inv.canceling scope record found canceling
    have active := inv.holder (.inr w) build ⟨phase, there, unfinished_running unfinished⟩
    rw [idle] at active
    cases active

theorem only_holder (inv : Inv world) {w : Nat} {build : Build} {phase : Phase}
    (there : world.workers w = some ⟨build, phase⟩) (running : phase.running = true) {x : Nat ⊕ Nat} {other : Build}
    (holds : Holds world other x) : x = .inr w ∧ other = build := by
  have same := inv.single x (.inr w) other build holds ⟨phase, there, running⟩
  subst same
  obtain ⟨_, there', _⟩ := holds
  rw [there] at there'
  cases there'
  exact ⟨rfl, rfl⟩

theorem only_worker (inv : Inv world) {w v : Nat} {build other : Build} {phase past : Phase}
    (there : world.workers w = some ⟨build, phase⟩) (running : phase.running = true)
    (there' : world.workers v = some ⟨other, past⟩) (running' : past.running = true) : v = w ∧ other = build ∧ past = phase := by
  obtain ⟨same, _⟩ := only_holder inv there running (x := .inr v) ⟨past, there', running'⟩
  cases same
  rw [there] at there'
  cases there'
  exact ⟨rfl, rfl, rfl⟩

theorem inv_turn (inv : Inv world) {w : Nat} {build : Build} {phase next : Phase} {after : World}
    (there : world.workers w = some ⟨build, phase⟩) (running : phase.running = true)
    (workers : after.workers = update world.workers w (some ⟨build, next⟩))
    (handlers : after.handlers = world.handlers) (active : after.active = world.active) (aim : after.aim = world.aim)
    (stops : ∀ stop ∈ after.stops, stop.1 = stop.2) (asked : after.asked = true → Heard after build next)
    (jobs : ∀ scope ≠ build.scope, after.jobs scope = world.jobs scope)
    (canceling : ∀ record, after.jobs build.scope = some record → record.state = .canceling → next.unfinished = true)
    (reached : ∀ scope record, after.reached scope = some record → scope ≠ build.scope ∧ world.reached scope = some record ∨
      scope = build.scope ∧ after.jobs scope = some record ∧ next = .closing)
    (final : ∀ final, next = .concluded final → final ≠ .canceling)
    (missed : after.missed = world.missed) (torn : after.torn = world.torn) : Inv after := by
  have here : after.workers w = some ⟨build, next⟩ := by rw [workers, update_self]
  have only : ∀ x other, Holds after other x → x = .inr w ∧ other = build := by
    intro x other holds
    cases x with
    | inl i =>
      have was : Holds world other (.inl i) := by
        change world.handlers i = .claimed other ∨ world.handlers i = .queued other
        rw [← handlers]
        exact holds
      exact nomatch (only_holder inv there running was).1
    | inr v =>
      obtain ⟨past, there', running'⟩ := holds
      by_cases same : v = w
      · subst same
        rw [here] at there'
        cases there'
        exact ⟨rfl, rfl⟩
      · rw [workers, update_of_ne same] at there'
        exact absurd (only_worker inv there running there' running').1 same
  constructor
  case holder =>
    intro x other holds
    rw [(only x other holds).2, active]
    exact inv.holder (.inr w) build ⟨phase, there, running⟩
  case single =>
    intro x y a b first second
    exact (only x a first).1.trans (only y b second).1.symm
  case aim =>
    rw [aim, active]
    exact inv.aim
  case stops => exact stops
  case asked => exact fun is => ⟨w, build, next, here, asked is⟩
  case canceling =>
    intro scope record found state
    by_cases same : scope = build.scope
    · subst same
      exact ⟨w, build, next, here, rfl, canceling record found state⟩
    · rw [jobs scope same] at found
      obtain ⟨v, other, past, there', named, unfinished⟩ := inv.canceling scope record found state
      obtain ⟨_, rfl, _⟩ := only_worker inv there running there' (unfinished_running unfinished)
      exact absurd named.symm same
  case reached =>
    intro scope record found
    rcases reached scope record found with ⟨elsewhere, before⟩ | ⟨same, written, closing⟩
    · refine ⟨(jobs scope elsewhere).trans (inv.reached scope record before).1, fun x other holds named => ?_⟩
      rw [(only x other holds).2] at named
      exact absurd named.symm elsewhere
    · refine ⟨written, fun x other holds _ => ⟨w, (only x other holds).1, ?_⟩⟩
      rw [(only x other holds).2, ← closing]
      exact here
  case final =>
    intro v other state there'
    by_cases same : v = w
    · subst same
      rw [here] at there'
      exact final state (congrArg Worker.phase (Option.some.inj there'))
    · rw [workers, update_of_ne same] at there'
      exact inv.final v other state there'
  case missed => exact missed.trans inv.missed
  case torn => exact torn.trans inv.torn

theorem holds_handle {i : Nat} {handler : Handler} {x : Nat ⊕ Nat} {other : Build} (holds : Holds (world.handle i handler) other x) :
    x = .inl i ∧ (handler = .claimed other ∨ handler = .queued other) ∨ x ≠ .inl i ∧ Holds world other x := by
  cases x with
  | inr w => exact .inr ⟨nofun, holds⟩
  | inl k =>
    change update world.handlers i handler k = _ ∨ update world.handlers i handler k = _ at holds
    by_cases same : k = i
    · subst same
      rw [update_self] at holds
      exact .inl ⟨rfl, holds⟩
    · rw [update_of_ne same] at holds
      exact .inr ⟨fun is => same (Sum.inl.inj is), holds⟩

theorem inv_handle (inv : Inv world) (i : Nat) {handler : Handler}
    (bare : ∀ build, handler ≠ .claimed build ∧ handler ≠ .queued build) : Inv (world.handle i handler) := by
  have held : ∀ x build, Holds (world.handle i handler) build x → Holds world build x := by
    intro x build holds
    rcases holds_handle holds with ⟨_, is | is⟩ | ⟨_, was⟩
    · exact absurd is (bare build).1
    · exact absurd is (bare build).2
    · exact was
  exact { inv with
    holder := fun x build holds => inv.holder x build (held x build holds)
    single := fun x y a b first second => inv.single x y a b (held x a first) (held y b second)
    reached := fun scope record found =>
      ⟨(inv.reached scope record found).1, fun x build holds named =>
        (inv.reached scope record found).2 x build (held x build holds) named⟩ }

section Handlers

variable {i : Nat} {build : Build}

theorem no_holder (inv : Inv world) (idle : world.active = none) (x : Nat ⊕ Nat) (build : Build) : ¬ Holds world build x := by
  intro holds
  have active := inv.holder x build holds
  rw [idle] at active
  cases active

theorem no_worker (inv : Inv world) (none : ∀ w build phase, world.workers w = some ⟨build, phase⟩ → phase.running = false) :
    world.asked = false ∧ ∀ scope record, world.jobs scope = some record → record.state ≠ .canceling := by
  constructor
  · cases asked : world.asked with
    | false => rfl
    | true =>
      obtain ⟨w, build, phase, there, heard⟩ := inv.asked asked
      have running := heard_running heard
      rw [none w build phase there] at running
      cases running
  · intro scope record found state
    obtain ⟨w, build, phase, there, _, unfinished⟩ := inv.canceling scope record found state
    have running := unfinished_running unfinished
    rw [none w build phase there] at running
    cases running

theorem handler_alone (inv : Inv world) (holds : Holds world build (.inl i)) :
    ∀ w build phase, world.workers w = some ⟨build, phase⟩ → phase.running = false := by
  intro w other phase there
  cases running : phase.running with
  | false => rfl
  | true => exact nomatch inv.single (.inl i) (.inr w) build other holds ⟨phase, there, running⟩

theorem handler_reached (inv : Inv world) (holds : Holds world build (.inl i)) {scope : Bytes} {record : Record}
    (found : world.reached scope = some record) : build.scope ≠ scope := by
  intro named
  obtain ⟨w, same, _⟩ := (inv.reached scope record found).2 (.inl i) build holds named
  cases same

theorem inv_claim (inv : Inv world) {after : World} (idle : ∀ w build phase, world.workers w = some ⟨build, phase⟩ → phase.running = false)
    (holder : ∀ x build, Holds after build x → after.active = some (build.scope, build.job))
    (single : ∀ x y a b, Holds after a x → Holds after b y → x = y) (aim : after.aim = none ∨ after.aim = world.aim ∧
      ∀ active, after.active = some active → world.active = some active)
    (stops : after.stops = world.stops) (asked : after.asked = false)
    (jobs : ∀ scope record, after.jobs scope = some record → record.state = .canceling → world.jobs scope = some record)
    (reached : ∀ scope record, after.reached scope = some record → world.reached scope = some record ∧
      after.jobs scope = world.jobs scope ∧ ∀ x build, Holds after build x → build.scope ≠ scope)
    (workers : ∀ w build final, after.workers w = some ⟨build, .concluded final⟩ → world.workers w = some ⟨build, .concluded final⟩)
    (missed : after.missed = world.missed) (torn : after.torn = world.torn) : Inv after where
  holder := holder
  single := single
  aim scope active job aimed now := by
    rcases aim with none | ⟨same, kept⟩
    · rw [none] at aimed
      cases aimed
    · exact inv.aim scope active job (same ▸ aimed) (kept _ now)
  stops := stops ▸ inv.stops
  asked is := by
    rw [asked] at is
    cases is
  canceling scope record found state :=
    absurd state ((no_worker inv idle).2 scope record (jobs scope record found state))
  reached scope record found := by
    obtain ⟨before, same, elsewhere⟩ := reached scope record found
    exact ⟨same.trans (inv.reached scope record before).1, fun x build holds named =>
      absurd named (elsewhere x build holds)⟩
  final w build final there := inv.final w build final (workers w build final there)
  missed := missed.trans inv.missed
  torn := torn.trans inv.torn

theorem inv_taken (inv : Inv world) (i : Nat) (build : Build) : Inv (claim world i build) := by
  unfold claim
  by_cases taken : world.active.isSome
  · rw [if_pos taken]
    exact inv_handle inv i (fun _ => ⟨nofun, nofun⟩)
  rw [if_neg taken]
  have idle : world.active = none := by simpa using taken
  have nobody := no_holder inv idle
  have only : ∀ x other, Holds ({ world with
      active := some (build.scope, build.job)
      control := .run
      aim := none
      asked := false
      reached := update world.reached build.scope none }.handle i (.claimed build)) other x →
        x = .inl i ∧ other = build := by
    intro x other holds
    rcases holds_handle holds with ⟨here, is | is⟩ | ⟨_, was⟩
    · cases is
      exact ⟨here, rfl⟩
    · cases is
    · exact absurd was (nobody x other)
  apply inv_claim inv
  case idle =>
    intro w other phase there
    cases running : phase.running with
    | false => rfl
    | true => exact absurd ⟨phase, there, running⟩ (nobody (.inr w) other)
  case holder =>
    intro x other holds
    rw [(only x other holds).2]
    rfl
  case single =>
    intro x y a b first second
    exact (only x a first).1.trans (only y b second).1.symm
  case aim => exact .inl rfl
  case stops => rfl
  case asked => rfl
  case jobs => exact fun _ _ found _ => found
  case reached =>
    intro scope record found
    change update world.reached build.scope none scope = some record at found
    by_cases same : scope = build.scope
    · rw [same, update_self] at found
      cases found
    · rw [update_of_ne same] at found
      refine ⟨found, rfl, fun x other holds named => ?_⟩
      rw [(only x other holds).2] at named
      exact same named.symm
  case workers => exact fun _ _ _ there => there
  case missed => rfl
  case torn => rfl

theorem inv_abandon (inv : Inv world) (holds : Holds world build (.inl i)) : Inv ((release world).handle i .idle) := by
  have nobody : ∀ x other, ¬ Holds ((release world).handle i .idle) other x := by
    intro x other holds'
    rcases holds_handle holds' with ⟨_, is | is⟩ | ⟨elsewhere, was⟩
    · cases is
    · cases is
    · exact elsewhere (inv.single x (.inl i) other build was holds)
  have idle := handler_alone inv holds
  apply inv_claim inv idle
  case holder => exact fun x other holds' => absurd holds' (nobody x other)
  case single => exact fun x _ a _ holds' => absurd holds' (nobody x a)
  case aim => exact .inr ⟨rfl, nofun⟩
  case stops => rfl
  case asked => exact (no_worker inv idle).1
  case jobs => exact fun _ _ found _ => found
  case reached => exact fun _ _ found => ⟨found, rfl, fun x other holds' => absurd holds' (nobody x other)⟩
  case workers => exact fun _ _ _ there => there
  case missed => rfl
  case torn => rfl

theorem write_jobs (world : World) (build : Build) (state : BuildState) (saved : Bool) (scope : Bytes) :
    (world.write build state saved).jobs scope =
      if saved = true ∧ scope = build.scope then some (build.record state) else world.jobs scope := by
  cases saved with
  | false => rfl
  | true =>
    change update world.jobs build.scope _ scope = _
    by_cases same : scope = build.scope
    · rw [if_pos ⟨rfl, same⟩, same, update_self]
    · rw [if_neg fun both => same both.2, update_of_ne same]

theorem write_same (world : World) (build : Build) (state : BuildState) (saved : Bool) :
    (world.write build state saved).active = world.active ∧ (world.write build state saved).control = world.control ∧
      (world.write build state saved).workers = world.workers ∧ (world.write build state saved).handlers = world.handlers ∧
          (world.write build state saved).aim = world.aim ∧ (world.write build state saved).asked = world.asked ∧
            (world.write build state saved).stops = world.stops ∧ (world.write build state saved).reached = world.reached ∧
                (world.write build state saved).missed = world.missed ∧
                  (world.write build state saved).torn = world.torn := by
  cases saved <;> exact ⟨rfl, rfl, rfl, rfl, rfl, rfl, rfl, rfl, rfl, rfl⟩

theorem write_holds (world : World) (build other : Build) (state : BuildState) (saved : Bool) (x : Nat ⊕ Nat) :
    Holds (world.write build state saved) other x ↔ Holds world other x := by
  cases saved <;> exact Iff.rfl

theorem inv_queue (inv : Inv world) (claimed : world.handlers i = .claimed build) (saved : Bool) :
    Inv ((world.write build .queued saved).handle i (.queued build)) := by
  have holds : Holds world build (.inl i) := .inl claimed
  have idle := handler_alone inv holds
  obtain ⟨active, _, workers, handlers, aim, asked, stops, reached, missed, torn⟩ :=
    write_same world build .queued saved
  have held : ∀ x other, Holds ((world.write build .queued saved).handle i (.queued build)) other x →
      Holds world other x ∧ other = build := by
    intro x other holds'
    rcases holds_handle holds' with ⟨here, is | is⟩ | ⟨elsewhere, was⟩
    · cases is
    · cases is
      rw [here]
      exact ⟨holds, rfl⟩
    · have before := (write_holds ..).mp was
      exact absurd (inv.single x (.inl i) other build before holds) elsewhere
  apply inv_claim inv idle
  case holder =>
    intro x other holds'
    exact active.trans (inv.holder x other (held x other holds').1)
  case single => exact fun x y a b first second => inv.single x y a b (held x a first).1 (held y b second).1
  case aim => exact .inr ⟨aim, fun _ now => active.symm.trans now⟩
  case stops => exact stops
  case asked => exact asked.trans (no_worker inv idle).1
  case jobs =>
    intro scope record found state
    change (world.write build .queued saved).jobs scope = some record at found
    rw [write_jobs] at found
    split at found
    · cases found
      cases state
    · exact found
  case reached =>
    intro scope record found
    change (world.write build .queued saved).reached scope = some record at found
    rw [reached] at found
    have elsewhere := handler_reached inv holds found
    refine ⟨found, ?_, fun x other holds' named => ?_⟩
    · change (world.write build .queued saved).jobs scope = _
      rw [write_jobs, if_neg fun both => elsewhere both.2.symm]
    · rw [(held x other holds').2] at named
      exact elsewhere named
  case workers =>
    intro w other final there
    rw [← workers]
    exact there
  case missed => exact missed
  case torn => exact torn

theorem inv_spawn (inv : Inv world) {w : Nat} (queued : world.handlers i = .queued build)
    (free : world.workers w = none) : Inv ((world.work w build .starting).handle i .idle) := by
  have holds : Holds world build (.inl i) := .inr queued
  have idle := handler_alone inv holds
  have only : ∀ x other, Holds ((world.work w build .starting).handle i .idle) other x →
      x = .inr w ∧ other = build := by
    intro x other holds'
    rcases holds_handle holds' with ⟨_, is | is⟩ | ⟨elsewhere, was⟩
    · cases is
    · cases is
    · cases x with
      | inl k => exact absurd (inv.single (.inl k) (.inl i) other build was holds) elsewhere
      | inr v =>
        obtain ⟨phase, there, running⟩ := was
        rcases update_cases there with ⟨rfl, ⟨⟩⟩ | ⟨_, there⟩
        · exact ⟨rfl, rfl⟩
        · rw [idle v other phase there] at running
          cases running
  have active := inv.holder (.inl i) build holds
  apply inv_claim inv idle
  case holder =>
    intro x other holds'
    rw [(only x other holds').2]
    exact active
  case single => exact fun x y a b first second => (only x a first).1.trans (only y b second).1.symm
  case aim => exact .inr ⟨rfl, fun _ now => now⟩
  case stops => rfl
  case asked => exact (no_worker inv idle).1
  case jobs => exact fun _ _ found _ => found
  case reached =>
    intro scope record found
    have elsewhere := handler_reached inv holds found
    refine ⟨found, rfl, fun x other holds' named => ?_⟩
    rw [(only x other holds').2] at named
    exact elsewhere named
  case workers =>
    intro v other final there
    rcases update_cases there with ⟨rfl, ⟨⟩⟩ | ⟨_, there⟩
    exact there
  case missed => rfl
  case torn => rfl

theorem inv_set (inv : Inv world) (i : Nat) {build : Build} (stop : Stop) {w : Nat} {worker : Worker}
    (there : world.workers w = some worker) (of_ : worker.build.scope = build.scope)
    (looks : worker.phase.looks = true) : Inv (setControl world i build stop) := by
  have stopping : stop.control ≠ .run := by cases stop <;> exact nofun
  have running := unfinished_running (looks_unfinished looks)
  have active := inv.holder (.inr w) worker.build ⟨worker.phase, there, running⟩
  unfold setControl
  refine inv_handle ?_ i (fun _ => ⟨nofun, nofun⟩)
  refine { inv with aim := ?_, asked := fun _ => ⟨w, worker.build, worker.phase, there, ?_⟩ }
  · rintro scope now job ⟨⟩ current
    rw [active] at current
    cases current
    exact of_
  · cases at_ : worker.phase with
    | concluded _ => rw [at_] at looks; cases looks
    | closing => rw [at_] at looks; cases looks
    | gone => rw [at_] at looks; cases looks
    | _ => exact stopping

theorem inv_record (inv : Inv world) (i : Nat) {build : Build} (stop : Stop) (saved : Bool) {w : Nat} {worker : Worker}
    (there : world.workers w = some worker) (of_ : worker.build.scope = build.scope) (unfinished : worker.phase.unfinished = true) :
    Inv ((world.write build stop.state saved).handle i .idle) := by
  refine inv_handle ?_ i (fun _ => ⟨nofun, nofun⟩)
  have running := unfinished_running unfinished
  obtain ⟨active, control, workers, _, aim, asked, stops, reached, missed, torn⟩ :=
    write_same world build stop.state saved
  have held := fun other x => write_holds world build other stop.state saved x
  constructor
  case holder =>
    intro x other holds
    exact active.trans (inv.holder x other ((held other x).mp holds))
  case single =>
    intro x y a b first second
    exact inv.single x y a b ((held a x).mp first) ((held b y).mp second)
  case aim =>
    rw [aim, active]
    exact inv.aim
  case stops =>
    rw [stops]
    exact inv.stops
  case asked =>
    rw [asked]
    intro is
    obtain ⟨v, other, phase, there', heard⟩ := inv.asked is
    obtain ⟨_, _, same⟩ := only_worker inv there running there' (heard_running heard)
    subst same
    refine ⟨v, other, worker.phase, by rw [workers]; exact there', ?_⟩
    revert heard unfinished
    cases worker.phase with
    | closing => exact fun no => nomatch no
    | gone => exact fun no => nomatch no
    | concluded final => exact fun _ heard => heard
    | _ => exact fun _ heard => by rw [Heard, control]; exact heard
  case canceling =>
    intro scope record found state
    rw [write_jobs] at found
    split at found
    · rename_i here
      exact ⟨w, worker.build, worker.phase, by rw [workers]; exact there, of_.trans here.2.symm, unfinished⟩
    · rw [workers]
      exact inv.canceling scope record found state
  case reached =>
    intro scope record found
    rw [reached] at found
    obtain ⟨before, closing⟩ := inv.reached scope record found
    have elsewhere : scope ≠ build.scope := by
      intro same
      obtain ⟨v, is, there'⟩ := closing (.inr w) worker.build ⟨worker.phase, there, running⟩ (of_.trans same.symm)
      cases is
      rw [there'] at there
      have closing : worker.phase = .closing := (congrArg Worker.phase (Option.some.inj there)).symm
      rw [closing] at unfinished
      cases unfinished
    refine ⟨?_, fun x other holds named => ?_⟩
    · rw [write_jobs, if_neg fun both => elsewhere both.2]
      exact before
    · rw [workers]
      exact closing x other ((held other x).mp holds) named
  case final =>
    rw [workers]
    exact inv.final
  case missed => exact missed.trans inv.missed
  case torn => exact torn.trans inv.torn

theorem inv_unlink (inv : Inv world) (i : Nat) {scope : Bytes} (file : ScopeFile) (rest : List ScopeFile)
    (free : world.building scope = false) : Inv (unlinkNext world i scope file rest) := by
  have elsewhere : ∀ x build, Holds world build x → build.scope ≠ scope := by
    intro x build holds same
    have active := inv.holder x build holds
    rw [World.building, active] at free
    simp [same] at free
  unfold unlinkNext
  refine inv_handle ?_ i (fun _ => by split <;> exact ⟨nofun, nofun⟩)
  have jobs : ∀ other ≠ scope,
      (if file = .job then update world.jobs scope none else world.jobs) other = world.jobs other := by
    intro other apart
    split
    · exact update_of_ne apart ..
    · rfl
  refine { inv with asked := ?_, canceling := ?_, reached := ?_, torn := ?_ }
  · intro is
    obtain ⟨w, build, phase, there, heard⟩ := inv.asked is
    refine ⟨w, build, phase, there, ?_⟩
    have apart := elsewhere (.inr w) build ⟨phase, there, heard_running heard⟩
    cases phase with
    | closing =>
      rw [Heard]
      dsimp only
      rw [jobs _ apart]
      exact heard
    | _ => exact heard
  · intro other record found state
    by_cases same : other = scope
    · subst same
      dsimp only at found
      split at found
      · rw [update_self] at found
        cases found
      · exact inv.canceling other record found state
    · exact inv.canceling other record ((jobs other same).symm.trans found) state
  · intro other record found
    dsimp only at found
    by_cases same : other = scope
    · subst same
      split at found
      · rw [update_self] at found
        cases found
      · rename_i kept
        dsimp only
        rw [if_neg kept]
        exact inv.reached other record found
    · have before : world.reached other = some record := by
        split at found
        · rwa [update_of_ne same] at found
        · exact found
      exact ⟨(jobs other same).trans (inv.reached other record before).1, (inv.reached other record before).2⟩
  · dsimp only
    rw [if_neg (by simp [free])]
    exact inv.torn

end Handlers

section Worker

variable {w : Nat} {build : Build} {phase : Phase}

section Asked

variable (inv : Inv world) (there : world.workers w = some ⟨build, phase⟩)
include inv there

theorem asked_heard (running : phase.running = true) (asked : world.asked = true) : Heard world build phase := by
  obtain ⟨v, other, past, there', heard⟩ := inv.asked asked
  obtain ⟨_, rfl, rfl⟩ := only_worker inv there running there' (heard_running heard)
  exact heard

theorem reached_elsewhere
    (unfinished : phase.unfinished = true) {scope : Bytes} {record : Record} (found : world.reached scope = some record) :
    scope ≠ build.scope := by
  intro same
  obtain ⟨v, is, there'⟩ :=
    (inv.reached scope record found).2 (.inr w) build ⟨phase, there, unfinished_running unfinished⟩ same.symm
  cases is
  rw [there] at there'
  cases there'
  cases unfinished

theorem inv_proceed (unfinished : phase.unfinished = true) {next : Phase} (state : BuildState) (saved : Bool)
    (asked : world.asked = true → Heard world build next) (goes : next.unfinished = true)
    (final : ∀ final, next = .concluded final → final ≠ .canceling) : Inv ((world.write build state saved).work w build next) := by
  obtain ⟨active, control, workers, handlers, aim, asked', stops, reached, missed, torn⟩ :=
    write_same world build state saved
  have turned : ((world.write build state saved).work w build next).workers =
      update world.workers w (some ⟨build, next⟩) := by
    change update (world.write build state saved).workers w _ = _
    rw [workers]
  refine inv_turn inv there (unfinished_running unfinished) turned handlers active aim ?_ ?_ ?_ ?_ ?_ final missed torn
  · intro stop member
    change stop ∈ (world.write build state saved).stops at member
    rw [stops] at member
    exact inv.stops stop member
  · intro is
    change (world.write build state saved).asked = true at is
    rw [asked'] at is
    have heard := asked is
    revert heard goes
    cases next with
    | closing => exact fun no => nomatch no
    | gone => exact fun no => nomatch no
    | concluded final => exact fun _ heard => heard
    | _ =>
      intro _ heard
      change (world.write build state saved).control ≠ .run
      rw [control]
      exact heard
  · intro scope apart
    change (world.write build state saved).jobs scope = _
    rw [write_jobs, if_neg fun both => apart both.2]
  · exact fun _ _ _ => goes
  · intro scope record found
    change (world.write build state saved).reached scope = some record at found
    rw [reached] at found
    exact .inl ⟨reached_elsewhere inv there unfinished found, found⟩

theorem inv_obeys (running : phase.running = true) : Inv (world.obeys build.scope) := by
  unfold World.obeys
  split
  · exact inv
  · refine { inv with stops := fun stop member => ?_ }
    rcases List.mem_append.mp member with old | new
    · exact inv.stops stop old
    · rw [Option.mem_toList, Option.map_eq_some_iff] at new
      obtain ⟨scope, aimed, rfl⟩ := new
      exact (inv.aim scope build.scope build.job aimed (inv.holder (.inr w) build ⟨phase, there, running⟩)).symm

end Asked

theorem obeys_same (world : World) (scope : Bytes) :
    (world.obeys scope).workers = world.workers ∧ (world.obeys scope).asked = world.asked ∧
      (world.obeys scope).control = world.control := by
  unfold World.obeys
  split <;> exact ⟨rfl, rfl, rfl⟩

theorem final_state (control signaled : Control) (ok : Bool) (published : Option Bool) :
    finalState control signaled ok published ≠ .canceling ∧
      (control ≠ .run → finalState control signaled ok published = .pausedUser ∨
        finalState control signaled ok published = .canceled) := by
  unfold finalState
  by_cases paused : control = .pause ∨ signaled = .pause
  · rw [if_pos paused]
    exact ⟨nofun, fun _ => .inl rfl⟩
  rw [if_neg paused]
  by_cases canceled : control = .cancel
  · rw [if_pos canceled]
    exact ⟨nofun, fun _ => .inr rfl⟩
  rw [if_neg canceled]
  constructor
  · split <;> exact nofun
  · intro stopped
    cases control with
    | run => exact absurd rfl stopped
    | pause => exact absurd (.inl rfl) paused
    | cancel => exact absurd rfl canceled

theorem inv_poll (inv : Inv world) (there : world.workers w = some ⟨build, .scanning .run⟩) : Inv (pollControl world w build) := by
  unfold pollControl
  by_cases running : world.control = .run
  · rw [if_pos running]
    exact inv
  rw [if_neg running]
  obtain ⟨workers, _, control⟩ := obeys_same world build.scope
  exact inv_proceed (inv_obeys inv there rfl) (by rw [workers]; exact there) rfl .running false
    (fun _ => by rw [Heard, control]; exact running) rfl nofun

theorem inv_conclude (inv : Inv world) {signaled : Control} {ok : Bool}
    (there : world.workers w = some ⟨build, .enriched signaled ok⟩) (published : Option Bool) :
    Inv ((world.obeys build.scope).work w build (.concluded (finalState world.control signaled ok published))) := by
  obtain ⟨workers, asked, _⟩ := obeys_same world build.scope
  refine inv_proceed (inv_obeys inv there rfl) (by rw [workers]; exact there) rfl .running false ?_ rfl ?_
  · intro is
    rw [asked] at is
    exact (final_state ..).2 (asked_heard inv there rfl is)
  · rintro _ ⟨⟩
    exact (final_state ..).1

theorem inv_enrich (inv : Inv world) {signaled : Control} {ok : Bool}
    (there : world.workers w = some ⟨build, .serviced signaled ok⟩) (store saved : Bool) :
    Inv (enrichStore world w build signaled ok store saved) := by
  have asked : world.asked = true → Heard world build (.enriched signaled ok) :=
    fun is => (asked_heard inv there rfl is : Heard world build (.serviced signaled ok))
  unfold enrichStore
  split
  · exact inv_proceed inv there rfl .running saved asked rfl nofun
  · exact inv_proceed inv there rfl .running false asked rfl nofun

theorem inv_finish (inv : Inv world) {final : BuildState} (there : world.workers w = some ⟨build, .concluded final⟩) (saved : Bool)
    (written : (world.asked = true ∨ (world.jobs build.scope).any (·.state == .canceling) = true) → saved = true) :
    Inv (finishBuild world w build final saved) := by
  have jobs : ∀ scope, (finishBuild world w build final saved).jobs scope =
      if saved = true ∧ scope = build.scope then some (build.record final) else world.jobs scope :=
    fun scope => write_jobs world build final saved scope
  obtain ⟨active, control, workers, handlers, aim, asked, stops, reached, missed, torn⟩ :=
    write_same world build final saved
  have turned : (finishBuild world w build final saved).workers =
      update world.workers w (some ⟨build, .closing⟩) := by
    change update (world.write build final saved).workers w _ = _
    rw [workers]
  refine inv_turn inv there rfl turned handlers active aim ?_ ?_ ?_ ?_ ?_ nofun missed torn
  · intro stop member
    change stop ∈ (world.write build final saved).stops at member
    rw [stops] at member
    exact inv.stops stop member
  · intro is
    change (world.write build final saved).asked = true at is
    rw [asked] at is
    have heard : final = .pausedUser ∨ final = .canceled := asked_heard inv there rfl is
    rw [Heard, jobs, if_pos ⟨written (.inl is), rfl⟩]
    rcases heard with rfl | rfl <;> simp [stoppedRecord, Build.record]
  · intro scope apart
    rw [jobs, if_neg fun both => apart both.2]
  · intro record found state
    rw [jobs] at found
    split at found
    · cases found
      exact absurd state (inv.final w build final there)
    · rename_i unsaved
      have is := written (.inr (by rw [found]; simp [state]))
      exact absurd ⟨is, rfl⟩ unsaved
  · intro scope record found
    change (if saved && final.terminal then update world.reached build.scope _ else world.reached) scope =
      some record at found
    by_cases ends : (saved && final.terminal) = true
    · rw [if_pos ends] at found
      rcases update_cases found with ⟨rfl, found'⟩ | ⟨here, found⟩
      · refine .inr ⟨rfl, ?_, rfl⟩
        rw [jobs, if_pos ⟨(Bool.and_eq_true_iff.mp ends).1, rfl⟩]
        exact found'
      · exact .inl ⟨here, found⟩
    · rw [if_neg ends] at found
      exact .inl ⟨reached_elsewhere inv there rfl found, found⟩

theorem inv_clear (inv : Inv world) (there : world.workers w = some ⟨build, .closing⟩) : Inv (clearActive world w build) := by
  have active := inv.holder (.inr w) build ⟨.closing, there, rfl⟩
  have nobody : ∀ x other, ¬ Holds (clearActive world w build) other x := by
    intro x other holds
    cases x with
    | inl k => exact nomatch (only_holder inv there rfl (x := .inl k) holds).1
    | inr v =>
      obtain ⟨past, there', running⟩ := holds
      rcases update_cases there' with ⟨rfl, ⟨⟩⟩ | ⟨same, there'⟩
      · cases running
      · exact same (only_worker inv there rfl there' running).1
  have none : (clearActive world w build).active = none := if_pos active
  constructor
  case holder => exact fun x other holds => absurd holds (nobody x other)
  case single => exact fun x _ a _ holds => absurd holds (nobody x a)
  case aim =>
    intro scope now job _ current
    rw [none] at current
    cases current
  case stops => exact inv.stops
  case asked => exact fun is => nomatch is
  case canceling =>
    intro scope record found state
    obtain ⟨v, other, past, there', _, unfinished⟩ := inv.canceling scope record found state
    obtain ⟨_, _, rfl⟩ := only_worker inv there rfl there' (unfinished_running unfinished)
    cases unfinished
  case reached =>
    exact fun scope record found =>
      ⟨(inv.reached scope record found).1, fun x other holds => absurd holds (nobody x other)⟩
  case final =>
    intro v other final there'
    rcases update_cases there' with ⟨rfl, ⟨⟩⟩ | ⟨_, there'⟩
    exact inv.final v other final there'
  case missed =>
    change (if world.asked && !stoppedRecord (world.jobs build.scope) build.job then _ else _) = []
    rw [if_neg]
    · exact inv.missed
    · intro missing
      obtain ⟨is, astray⟩ := Bool.and_eq_true_iff.mp missing
      have heard : stoppedRecord (world.jobs build.scope) build.job = true := asked_heard inv there rfl is
      rw [heard] at astray
      cases astray
  case torn => exact inv.torn

end Worker

theorem inv_request (inv : Inv world) (i : Nat) (scope : Bytes) (action : Action) (requested : Option Bytes) :
    Inv (request world i scope action requested) := by
  unfold request
  split
  · exact inv_handle inv i (fun _ => ⟨nofun, nofun⟩)
  · exact inv
  · exact inv_handle inv i (fun _ => ⟨nofun, nofun⟩)
  · exact inv_handle inv i (fun _ => ⟨nofun, nofun⟩)
  · exact inv_handle inv i (fun _ => ⟨nofun, nofun⟩)
  · split
    · exact inv
    dsimp only
    split
    · exact inv_handle inv i (fun _ => ⟨nofun, nofun⟩)
    · exact inv_handle inv i (fun _ => ⟨nofun, nofun⟩)
    · split
      · exact inv_handle inv i (fun _ => ⟨nofun, nofun⟩)
      · exact inv

theorem inv_shutdown (inv : Inv world) : Inv { world with control := .cancel, aim := none } := by
  refine { inv with aim := nofun, asked := fun is => ?_ }
  obtain ⟨w, build, phase, there, heard⟩ := inv.asked is
  refine ⟨w, build, phase, there, ?_⟩
  cases phase with
  | concluded final => exact heard
  | closing => exact heard
  | gone => exact heard
  | _ => exact (nofun : Control.cancel ≠ Control.run)

theorem inv_step (inv : Inv world) (event : Event) (undisturbed : Undisturbed world event) : Inv (step world event) := by
  cases event with
  | request i scope action requested =>
    simp only [step]
    split
    · exact inv_request inv i scope action requested
    · exact inv
  | set i =>
    simp only [step]
    split
    · rename_i build stop stopping
      obtain ⟨w, worker, there, named, _, looks⟩ := undisturbed build stop stopping
      exact inv_set inv i stop there named looks
    · exact inv
  | record i saved =>
    simp only [step]
    split
    · rename_i build stop recording
      obtain ⟨w, worker, there, named, _, unfinished⟩ := undisturbed build stop recording
      exact inv_record inv i stop saved there named unfinished
    · exact inv
  | check i =>
    simp only [step]
    split
    · exact inv_handle inv i (fun _ => by split <;> exact ⟨nofun, nofun⟩)
    · exact inv
  | unlink i removed =>
    simp only [step]
    split
    · rename_i scope file rest unlinking
      split
      · exact inv_unlink inv i file rest (undisturbed scope (file :: rest) unlinking)
      · exact inv_handle inv i (fun _ => ⟨nofun, nofun⟩)
    · exact inv
  | busy i id =>
    simp only [step]
    split
    · exact inv_handle inv i (fun _ => by split <;> exact ⟨nofun, nofun⟩)
    · exact inv
  | create i build =>
    simp only [step]
    split
    · exact inv_handle inv i (fun _ => ⟨nofun, nofun⟩)
    · exact inv
  | claim i =>
    simp only [step]
    split
    · exact inv_taken inv i _
    · exact inv
  | abandon i =>
    simp only [step]
    split
    · rename_i build claimed
      exact inv_abandon inv (.inl claimed : Holds world build (.inl i))
    · rename_i build queued
      exact inv_abandon inv (.inr queued : Holds world build (.inl i))
    · exact inv
  | queue i saved =>
    simp only [step]
    split
    · rename_i build claimed
      exact inv_queue inv claimed saved
    · exact inv
  | spawn i w =>
    simp only [step]
    split
    · rename_i build queued free
      exact inv_spawn inv queued free
    · exact inv
  | begin w saved =>
    simp only [step]
    split
    · rename_i build there
      exact inv_proceed inv there rfl .running saved
        (fun is => (asked_heard inv there rfl is : Heard world build .starting)) rfl nofun
    · exact inv
  | poll w =>
    simp only [step]
    split
    · rename_i build there
      exact inv_poll inv there
    · exact inv
  | serve w ok =>
    simp only [step]
    split
    · rename_i build signaled there
      exact inv_proceed inv there rfl .running false
        (fun is => (asked_heard inv there rfl is : Heard world build (.scanning signaled))) rfl nofun
    · exact inv
  | enrich w store saved =>
    simp only [step]
    split
    · rename_i build signaled ok there
      exact inv_enrich inv there store saved
    · exact inv
  | conclude w published =>
    simp only [step]
    split
    · rename_i build signaled ok there
      exact inv_conclude inv there published
    · exact inv
  | finish w saved =>
    simp only [step]
    split
    · rename_i build final there
      exact inv_finish inv there saved (undisturbed build _ there)
    · exact inv
  | clear w =>
    simp only [step]
    split
    · rename_i build there
      exact inv_clear inv there
    · exact inv
  | shutdown => exact inv_shutdown inv

theorem repaired_settles (record : Record) : (repaired record).state ≠ .canceling := by
  unfold repaired
  split
  · exact nofun
  · exact nofun
  · exact nofun
  · rename_i other
    exact other

theorem inv_opened (jobs : Bytes → Option Record) : Inv (opened jobs) where
  holder x build holds := by
    cases x with
    | inl i => exact nomatch holds
    | inr w =>
      obtain ⟨phase, there, _⟩ := holds
      cases there
  single x y a b first := by
    cases x with
    | inl i => exact nomatch first
    | inr w =>
      obtain ⟨phase, there, _⟩ := first
      cases there
  aim _ _ _ none := (nomatch none)
  stops _ none := (nomatch none)
  asked none := (nomatch none)
  canceling scope record found state := by
    obtain ⟨before, _, rfl⟩ := Option.map_eq_some_iff.mp found
    exact absurd state (repaired_settles before)
  reached scope record found := by
    refine ⟨(Option.filter_eq_some_iff.mp found).1, fun x build holds => ?_⟩
    cases x with
    | inl i => exact nomatch holds
    | inr w =>
      obtain ⟨phase, there, _⟩ := holds
      cases there
  final _ _ _ none := (nomatch none)
  missed := rfl
  torn := rfl

-- Any requests on any scopes, in any order with the worker's steps.
theorem builds_are_scoped (jobs : Bytes → Option Record) (events : List Event)
    (undisturbed : Along step Undisturbed (opened jobs) events) : Scoped (run jobs events) := by
  have preserved : ∀ world event, Inv world → Undisturbed world event → Inv (step world event) :=
    fun _ event inv good => inv_step inv event good
  exact inv_scoped (along_invariant preserved (inv_opened jobs) events undisturbed)

def photos : Bytes := utf8 "photos"

def letters : Bytes := utf8 "letters"

def asked (scope : Bytes) : List Event :=
  [.request 0 scope .build none, .busy 0 (utf8 "job"), .claim 0, .queue 0 true, .spawn 0 0, .begin 0 true]

theorem builds_are_scoped_paused :
    Scoped (run (fun _ => none) (asked photos ++ [.request 1 photos .pause none, .set 1, .record 1 true, .poll 0,
      .serve 0 false, .enrich 0 false true, .conclude 0 none, .finish 0 true, .clear 0])) := by
  apply builds_are_scoped
  refine ⟨trivial, trivial, trivial, trivial, trivial, trivial, trivial, ?_, ?_, trivial, trivial, trivial, trivial,
    fun _ _ _ _ => rfl, trivial, trivial⟩
  · intro build stop stopping
    cases stopping
    exact ⟨0, _, rfl, rfl, rfl, rfl⟩
  · intro build stop recording
    cases recording
    exact ⟨0, _, rfl, rfl, rfl, rfl⟩

-- The pause names a scope whose build has completed, and stops the build of another.
theorem pause_stops_another : ¬ ∀ jobs events, Scoped (run jobs events) := by
  intro always
  have stopped : (letters, photos) ∈ (run (fun scope => if scope = letters then some ⟨utf8 "done", .completed, 1⟩ else none)
      (asked photos ++ [.request 1 letters .pause none, .set 1, .record 1 true, .poll 0])).stops := by
    decide
  exact absurd ((always _ _).aimed _ stopped) (by decide)

end SamosaChat.Chutni
