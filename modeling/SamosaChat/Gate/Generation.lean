import SamosaChat.Lib.Slots
import SamosaChat.Lib.Runs

set_option autoImplicit false

namespace SamosaChat.Gate

open Runs Slots

-- The visual helper of a turn. A direct turn is one of the Molmo2 direct chat, which marks the counter by itself.
inductive Helper
  | visionpsy
  | molmo2
  | direct
deriving DecidableEq

inductive Phase
  | outside
  | proxied
  | starting (helper : Helper)
  | checking (helper : Helper)
  | ready
  | inside (direct : Bool)
  | closing (marked : Bool)
  | restarted (marked : Bool)
  | clearing
deriving DecidableEq

-- generation_gate_held
def Phase.holds : Phase → Bool
  | .starting _ => true
  | .checking _ => true
  | .ready => true
  | .inside _ => true
  | .closing _ => true
  | .restarted _ => true
  | _ => false

def Phase.generates : Phase → Bool
  | .proxied => true
  | .inside direct => direct
  | .closing marked => marked
  | .restarted marked => marked
  | .clearing => true
  | _ => false

structure Turn where
  phase : Phase
  backendPaused : Bool
deriving DecidableEq

def newTurn : Turn where
  phase := .outside
  backendPaused := false

structure World where
  generating : Int
  specialistGenerationActive : Bool
  running : Bool
  stopping : Bool
  turns : Nat → Turn
  refusals : List (Nat × String)

inductive Admission
  | admitted
  | pressure
  | sessionFailed

inductive Event
  | enter (i : Nat)
  | leave (i : Nat)
  | start (i : Nat) (helper : Helper)
  | pause (i : Nat) (reclaims : Bool)
  | session (i : Nat) (outcome : Admission)
  | mark (i : Nat)
  | release (i : Nat)
  | restart (i : Nat) (started : Bool)
  | free (i : Nat)
  | clear (i : Nat)
  | stop

def moved (world : World) (i : Nat) (phase : Phase) : World :=
  { world with turns := write world.turns i { world.turns i with phase := phase } }

def refuse (world : World) (i : Nat) (code : String) : World :=
  { world with refusals := world.refusals ++ [(i, code)] }

def pressureCode : Helper → String
  | .visionpsy => "vision_resource_pressure"
  | _ => "molmo2_resource_pressure"

@[grind =]
def step (world : World) : Event → World
  -- The gate of proxy_request_ex and of backend_json.
  | .enter i =>
    match (world.turns i).phase with
    | .outside =>
      if world.specialistGenerationActive then refuse world i "multimodal_specialist_active"
      else moved { world with generating := world.generating + 1 } i .proxied
    | _ => world
  | .leave i =>
    match (world.turns i).phase with
    | .proxied => moved { world with generating := world.generating - 1 } i .outside
    | _ => world
  -- vision_turn_start, up to the helper's session.
  | .start i helper =>
    match (world.turns i).phase with
    | .outside =>
      if world.specialistGenerationActive || world.generating != 0 then refuse world i "vision_specialist_busy"
      else moved { world with specialistGenerationActive := true } i (.starting helper)
    | _ => world
  | .pause i reclaims =>
    match (world.turns i).phase with
    | .starting helper =>
      if helper != .visionpsy && reclaims && world.running then
        { world with
          running := false
          turns := write world.turns i { phase := .checking helper, backendPaused := true } }
      else moved world i (.checking helper)
    | _ => world
  | .session i outcome =>
    match (world.turns i).phase with
    | .checking helper =>
      match outcome with
      | .admitted => moved world i (if helper = .direct then .ready else .inside false)
      | .pressure => moved (refuse world i (pressureCode helper)) i (.closing false)
      | .sessionFailed => moved (refuse world i "vision_session_failed") i (.closing false)
    | _ => world
  | .mark i =>
    match (world.turns i).phase with
    | .ready => moved { world with generating := 1 } i (.inside true)
    | _ => world
  -- vision_turn_release_runtime: after the answer, a failure, a timeout or a cancel.
  | .release i =>
    match (world.turns i).phase with
    | .inside direct => moved world i (.closing direct)
    | _ => world
  | .restart i started =>
    match (world.turns i).phase with
    | .closing marked =>
      if (world.turns i).backendPaused && !world.stopping then
        { world with
          running := started || world.running
          turns := write world.turns i { phase := .restarted marked, backendPaused := false } }
      else moved world i (.restarted marked)
    | _ => world
  | .free i =>
    match (world.turns i).phase with
    | .restarted true => moved { world with specialistGenerationActive := false } i .clearing
    | .restarted false => moved { world with specialistGenerationActive := false } i .outside
    | _ => world
  | .clear i =>
    match (world.turns i).phase with
    | .clearing => moved { world with generating := 0 } i .outside
    | _ => world
  | .stop => { world with stopping := true, running := false }

def newWorld (running : Bool) : World where
  generating := 0
  specialistGenerationActive := false
  running := running
  stopping := false
  turns := fun _ => newTurn
  refusals := []

def inside (n : Nat) (world : World) : Nat :=
  total n world.turns fun turn => if turn.phase.generates then 1 else 0

structure Kept (running : Bool) (n : Nat) (world : World) : Prop where
  exclusive : ∀ i j, i ≠ j → (world.turns i).phase.holds = true →
    (world.turns j).phase.holds = false ∧ (world.turns j).phase ≠ .proxied
  counted : world.generating = inside n world
  gate : world.specialistGenerationActive = true ↔ ∃ i, (world.turns i).phase.holds = true
  ended : world.stopping = false → ∀ i, (world.turns i).phase.holds = false → (world.turns i).backendPaused = false
  backend : running = true → world.stopping = false → (∀ i, (world.turns i).backendPaused = false) → world.running = true

def turnOf : Event → Nat
  | .enter i => i
  | .leave i => i
  | .start i _ => i
  | .pause i _ => i
  | .session i _ => i
  | .mark i => i
  | .release i => i
  | .restart i _ => i
  | .free i => i
  | .clear i => i
  | .stop => 0

structure Good (n : Nat) (world : World) (event : Event) : Prop where
  bound : turnOf event < n
  -- When a direct turn clears the counter, no generation of the backend is under way.
  alone : ∀ i, event = .clear i → (world.turns i).phase = .clearing → ∀ j, (world.turns j).phase ≠ .proxied
  -- A backend that was paused can be started again.
  starts : ∀ i started, event = .restart i started → (world.turns i).backendPaused = true → world.stopping = false →
    started = true

structure Beside (p q : Phase) : Prop where
  holder : p.holds = true → q = .outside
  last : p = .clearing → q = .outside ∨ q = .proxied

structure Inv (running : Bool) (n : Nat) (world : World) : Prop where
  beyond : ∀ i, n ≤ i → (world.turns i).phase = .outside
  beside : ∀ i j, j ≠ i → Beside (world.turns i).phase (world.turns j).phase
  counted : world.generating = inside n world
  gate : world.specialistGenerationActive = true ↔ ∃ i, (world.turns i).phase.holds = true
  ended : world.stopping = false → ∀ i, (world.turns i).phase.holds = false → (world.turns i).backendPaused = false
  restarted : world.stopping = false → ∀ i marked, (world.turns i).phase = .restarted marked →
    (world.turns i).backendPaused = false
  backend : running = true → world.stopping = false → (∀ i, (world.turns i).backendPaused = false) → world.running = true

section Steps

variable {running : Bool} {n : Nat} {world : World} {i : Nat}

def one (phase : Phase) : Nat :=
  if phase.generates then 1 else 0

structure Fresh (running : Bool) (world : World) (i : Nat) (turn : Turn) (generating : Int) (active run : Bool) : Prop where
  beside : ∀ j, j ≠ i → Beside turn.phase (world.turns j).phase ∧ Beside (world.turns j).phase turn.phase
  counted : generating + one (world.turns i).phase = world.generating + one turn.phase
  gate : active = true ↔ turn.phase.holds = true ∨ ∃ j, j ≠ i ∧ (world.turns j).phase.holds = true
  ended : world.stopping = false → turn.phase.holds = false → turn.backendPaused = false
  restarted : world.stopping = false → ∀ marked, turn.phase = .restarted marked → turn.backendPaused = false
  backend : running = true → world.stopping = false → turn.backendPaused = false →
    (∀ j, j ≠ i → (world.turns j).backendPaused = false) → run = true

theorem inv_write (inv : Inv running n world) (bound : i < n) {turn : Turn} {generating : Int} {active run : Bool}
    (fresh : Fresh running world i turn generating active run) :
    Inv running n
      { world with
        generating := generating
        specialistGenerationActive := active
        running := run
        turns := write world.turns i turn } where
  beyond := by
    intro j far
    change (write world.turns i turn j).phase = .outside
    rw [write_other _ _ _ _ (by omega)]
    exact inv.beyond j far
  beside := by
    intro k j different
    change Beside (write world.turns i turn k).phase (write world.turns i turn j).phase
    by_cases own : k = i
    · subst own
      rw [write_same, write_other _ _ _ _ different]
      exact (fresh.beside j different).1
    · rw [write_other _ _ _ _ own]
      by_cases other : j = i
      · subst other
        rw [write_same]
        exact (fresh.beside k own).2
      · rw [write_other _ _ _ _ other]
        exact inv.beside k j different
  counted := by
    have measured := total_write n world.turns (fun turn => one turn.phase) i turn bound
    have before := inv.counted
    have after := fresh.counted
    change generating = ((total n (write world.turns i turn) fun turn => one turn.phase : Nat) : Int)
    change world.generating = ((total n world.turns fun turn => one turn.phase : Nat) : Int) at before
    omega
  gate := by
    change active = true ↔ ∃ j, (write world.turns i turn j).phase.holds = true
    rw [fresh.gate]
    constructor
    · intro held
      cases held with
      | inl own => exact ⟨i, by rw [write_same]; exact own⟩
      | inr other =>
        obtain ⟨j, different, holds⟩ := other
        exact ⟨j, by rw [write_other _ _ _ _ different]; exact holds⟩
    · intro held
      obtain ⟨j, holds⟩ := held
      by_cases own : j = i
      · subst own
        rw [write_same] at holds
        exact .inl holds
      · rw [write_other _ _ _ _ own] at holds
        exact .inr ⟨j, own, holds⟩
  ended := by
    intro going j free
    change (write world.turns i turn j).phase.holds = false at free
    change (write world.turns i turn j).backendPaused = false
    by_cases own : j = i
    · subst own
      rw [write_same] at free ⊢
      exact fresh.ended going free
    · rw [write_other _ _ _ _ own] at free ⊢
      exact inv.ended going j free
  restarted := by
    intro going j marked phase
    change (write world.turns i turn j).phase = .restarted marked at phase
    change (write world.turns i turn j).backendPaused = false
    by_cases own : j = i
    · subst own
      rw [write_same] at phase ⊢
      exact fresh.restarted going marked phase
    · rw [write_other _ _ _ _ own] at phase ⊢
      exact inv.restarted going j marked phase
  backend := by
    intro was going unpaused
    change ∀ j, (write world.turns i turn j).backendPaused = false at unpaused
    have own := unpaused i
    rw [write_same] at own
    apply fresh.backend was going own
    intro j other
    have others := unpaused j
    rw [write_other _ _ _ _ other] at others
    exact others

theorem beside_outside (p : Phase) : Beside p .outside ∧ Beside .outside p :=
  ⟨⟨fun _ => rfl, fun _ => .inl rfl⟩, ⟨nofun, nofun⟩⟩

section Steps

variable (inv : Inv running n world)
include inv

theorem held (holds : (world.turns i).phase.holds = true) : world.specialistGenerationActive = true :=
  inv.gate.mpr ⟨i, holds⟩

theorem unheld (free : world.specialistGenerationActive = false) (j : Nat) : (world.turns j).phase.holds = false := by
  cases holds : (world.turns j).phase.holds with
  | false => rfl
  | true => rw [held inv holds] at free; cases free

theorem counted_alone (bound : i < n)
    (others : ∀ j, j ≠ i → (world.turns j).phase = .outside) : world.generating = one (world.turns i).phase := by
  have measured := total_write n world.turns (fun turn => one turn.phase) i newTurn bound
  have nobody : total n (write world.turns i newTurn) (fun turn => one turn.phase) = 0 := by
    rw [total_zero_iff]
    intro j _
    by_cases own : j = i
    · subst own
      rw [write_same]
      rfl
    · rw [write_other _ _ _ _ own, others j own]
      rfl
  have before := inv.counted
  change world.generating = ((total n world.turns fun turn => one turn.phase : Nat) : Int) at before
  have outside : one newTurn.phase = 0 := rfl
  omega

theorem all_outside (free : world.specialistGenerationActive = false)
    (none_ : world.generating = 0) (j : Nat) : (world.turns j).phase = .outside := by
  by_cases bound : j < n
  · have before := inv.counted
    change world.generating = ((total n world.turns fun turn => one turn.phase : Nat) : Int) at before
    have zero : total n world.turns (fun turn => one turn.phase) = 0 := by omega
    have own := (total_zero_iff _ _ _).mp zero j bound
    have holds := unheld inv free j
    cases phase : (world.turns j).phase with
    | outside => rfl
    | proxied => rw [phase] at own; cases own
    | clearing => rw [phase] at own; cases own
    | _ => rw [phase] at holds; cases holds
  · exact inv.beyond j (by omega)

theorem inv_held (bound : i < n) (turn : Turn) {run : Bool}
    (was : (world.turns i).phase.holds = true) (now : turn.phase.holds = true) (same : one turn.phase = one (world.turns i).phase)
    (restarted : world.stopping = false → ∀ marked, turn.phase = .restarted marked → turn.backendPaused = false)
    (backend : running = true → world.stopping = false → turn.backendPaused = false →
      (∀ j, j ≠ i → (world.turns j).backendPaused = false) → run = true) :
    Inv running n { world with running := run, turns := write world.turns i turn } := by
  apply inv_write inv bound
  constructor
  case beside =>
    intro j other
    rw [(inv.beside i j other).holder was]
    exact beside_outside turn.phase
  case counted => rw [same]
  case gate => exact ⟨fun _ => .inl now, fun _ => held inv was⟩
  case ended =>
    intro _ free
    rw [now] at free
    cases free
  case restarted => exact restarted
  case backend => exact backend

theorem backend_kept (was : running = true) (going : world.stopping = false)
    (own : (world.turns i).backendPaused = false) (others : ∀ j, j ≠ i → (world.turns j).backendPaused = false) :
    world.running = true := by
  apply inv.backend was going
  intro j
  by_cases same : j = i
  · subst same
    exact own
  · exact others j same

theorem inv_moved (bound : i < n) {phase : Phase} (was : (world.turns i).phase.holds = true) (now : phase.holds = true)
    (same : one phase = one (world.turns i).phase) (mid : ∀ marked, phase ≠ .restarted marked) :
    Inv running n (moved world i phase) := by
  apply inv_held inv bound { world.turns i with phase := phase } was now same
  · intro _ marked phase_
    exact absurd phase_ (mid marked)
  · exact backend_kept inv

theorem inv_refuse (code : String) : Inv running n (refuse world i code) where
  beyond := inv.beyond
  beside := inv.beside
  counted := inv.counted
  gate := inv.gate
  ended := inv.ended
  restarted := inv.restarted
  backend := inv.backend

theorem inv_free (bound : i < n) (phase : Phase) {generating : Int}
    (now : phase.holds = false) (between : ∀ marked, phase ≠ .restarted marked)
    (beside : ∀ j, j ≠ i → Beside phase (world.turns j).phase ∧ Beside (world.turns j).phase phase)
    (counted : generating + one (world.turns i).phase = world.generating + one phase)
    (others : ∀ j, j ≠ i → (world.turns j).phase.holds = false)
    (unpaused : world.stopping = false → (world.turns i).backendPaused = false) :
    Inv running n
      (moved { world with generating := generating, specialistGenerationActive := false } i phase) := by
  apply inv_write inv bound
  constructor
  case beside => exact beside
  case counted => exact counted
  case gate =>
    constructor
    · nofun
    · intro held_
      cases held_ with
      | inl own =>
        change phase.holds = true at own
        rw [now] at own
        cases own
      | inr other =>
        obtain ⟨j, different, holds⟩ := other
        rw [others j different] at holds
        cases holds
  case ended =>
    intro going _
    exact unpaused going
  case restarted =>
    intro _ marked phase_
    exact absurd phase_ (between marked)
  case backend => exact backend_kept inv

theorem inv_enter (bound : i < n) : Inv running n (step world (.enter i)) := by
  simp only [step]
  cases phase : (world.turns i).phase with
  | outside =>
    dsimp only
    split_ifs with busy
    · exact inv_refuse inv _
    · have active : world.specialistGenerationActive = false := Bool.not_eq_true _ ▸ busy
      have free := unheld inv active
      have entered : Inv running n (moved
          { world with generating := world.generating + 1, specialistGenerationActive := false } i .proxied) := by
        apply inv_free inv bound .proxied rfl nofun
        · intro j _
          constructor
          · exact ⟨nofun, nofun⟩
          · constructor
            · intro holds
              rw [free j] at holds
              cases holds
            · exact fun _ => .inr rfl
        · rw [phase]
          simp [one, Phase.generates]
        · exact fun j _ => free j
        · exact fun going => inv.ended going i (free i)
      rw [← active] at entered
      exact entered
  | _ => exact inv

theorem inv_leave (bound : i < n) : Inv running n (step world (.leave i)) := by
  simp only [step]
  cases phase : (world.turns i).phase with
  | proxied =>
    apply inv_write inv bound
    constructor
    case beside => exact fun j _ => (beside_outside _).symm
    case counted =>
      rw [phase]
      simp [one, Phase.generates]
    case gate =>
      constructor
      · intro active
        obtain ⟨j, holds⟩ := inv.gate.mp active
        refine .inr ⟨j, ?_, holds⟩
        rintro rfl
        rw [phase] at holds
        cases holds
      · intro held_
        cases held_ with
        | inl own => cases own
        | inr other =>
          obtain ⟨j, _, holds⟩ := other
          have active := held inv holds
          exact active
    case ended =>
      intro going _
      apply inv.ended going i
      rw [phase]
      rfl
    case restarted => nofun
    case backend => exact backend_kept inv
  | _ => exact inv

theorem inv_start (bound : i < n) (helper : Helper) : Inv running n (step world (.start i helper)) := by
  simp only [step]
  cases phase : (world.turns i).phase with
  | outside =>
    dsimp only
    split_ifs with busy
    · exact inv_refuse inv _
    · simp only [Bool.or_eq_true, bne_iff_ne, ne_eq, not_or, Bool.not_eq_true, not_not] at busy
      have outside := all_outside inv busy.1 busy.2
      apply inv_write inv bound
      constructor
      case beside =>
        intro j _
        rw [outside j]
        exact beside_outside _
      case counted =>
        rw [phase]
        simp [one, Phase.generates]
      case gate => exact ⟨fun _ => .inl rfl, fun _ => rfl⟩
      case ended => nofun
      case restarted => nofun
      case backend => exact backend_kept inv
  | _ => exact inv

theorem inv_pause (bound : i < n) (reclaims : Bool) : Inv running n (step world (.pause i reclaims)) := by
  simp only [step]
  cases phase : (world.turns i).phase with
  | starting helper =>
    have was : (world.turns i).phase.holds = true := by rw [phase]; rfl
    have same : one (.checking helper) = one (world.turns i).phase := by rw [phase]; rfl
    dsimp only
    split_ifs
    · exact inv_held inv bound _ was rfl same nofun nofun
    · exact inv_moved inv bound was rfl same nofun
  | _ => exact inv

theorem inv_session (bound : i < n) (outcome : Admission) : Inv running n (step world (.session i outcome)) := by
  simp only [step]
  cases phase : (world.turns i).phase with
  | checking helper =>
    have was : (world.turns i).phase.holds = true := by rw [phase]; rfl
    cases outcome with
    | admitted =>
      dsimp only
      split_ifs
      · exact inv_moved inv bound was rfl (by rw [phase]; rfl) nofun
      · exact inv_moved inv bound was rfl (by rw [phase]; rfl) nofun
    | pressure => exact inv_moved (inv_refuse inv _) bound was rfl (by rw [refuse, phase]; rfl) nofun
    | sessionFailed => exact inv_moved (inv_refuse inv _) bound was rfl (by rw [refuse, phase]; rfl) nofun
  | _ => exact inv

theorem inv_mark (bound : i < n) : Inv running n (step world (.mark i)) := by
  simp only [step]
  cases phase : (world.turns i).phase with
  | ready =>
    have was : (world.turns i).phase.holds = true := by rw [phase]; rfl
    have others : ∀ j, j ≠ i → (world.turns j).phase = .outside := fun j other => (inv.beside i j other).holder was
    have counted := counted_alone inv bound others
    have active := held inv was
    apply inv_write inv bound
    constructor
    case beside =>
      intro j other
      rw [others j other]
      exact beside_outside _
    case counted =>
      rw [counted, phase]
      simp [one, Phase.generates]
    case gate => exact ⟨fun _ => .inl rfl, fun _ => active⟩
    case ended => nofun
    case restarted => nofun
    case backend => exact backend_kept inv
  | _ => exact inv

theorem inv_release (bound : i < n) : Inv running n (step world (.release i)) := by
  simp only [step]
  cases phase : (world.turns i).phase with
  | inside direct => exact inv_moved inv bound (by rw [phase]; rfl) rfl (by rw [phase]; rfl) nofun
  | _ => exact inv

theorem inv_restart {started : Bool} (good : Good n world (.restart i started)) :
    Inv running n (step world (.restart i started)) := by
  have bound : i < n := good.bound
  simp only [step]
  cases phase : (world.turns i).phase with
  | closing marked =>
    have was : (world.turns i).phase.holds = true := by rw [phase]; rfl
    have same : one (.restarted marked) = one (world.turns i).phase := by rw [phase]; rfl
    dsimp only
    split_ifs with paused
    · simp only [Bool.and_eq_true, Bool.not_eq_true'] at paused
      have started_ := good.starts i started rfl paused.1 paused.2
      rw [started_]
      exact inv_held inv bound _ was rfl same (fun _ _ _ => rfl) (fun _ _ _ _ => rfl)
    · apply inv_held inv bound { world.turns i with phase := .restarted marked } was rfl same
      · intro going _ _
        simp only [going, Bool.not_false, Bool.and_true, Bool.not_eq_true] at paused
        exact paused
      · exact backend_kept inv
  | _ => exact inv

theorem inv_let (bound : i < n) : Inv running n (step world (.free i)) := by
  simp only [step]
  cases phase : (world.turns i).phase with
  | restarted marked =>
    have was : (world.turns i).phase.holds = true := by rw [phase]; rfl
    have others : ∀ j, j ≠ i → (world.turns j).phase = .outside := fun j other => (inv.beside i j other).holder was
    have free : ∀ j, j ≠ i → (world.turns j).phase.holds = false := by
      intro j other
      rw [others j other]
      rfl
    have unpaused : world.stopping = false → (world.turns i).backendPaused = false :=
      fun going => inv.restarted going i marked phase
    cases marked with
    | true =>
      apply inv_free inv bound .clearing rfl nofun _ _ free unpaused
      · intro j other
        rw [others j other]
        exact beside_outside _
      · rw [phase]
        rfl
    | false =>
      apply inv_free inv bound .outside rfl nofun _ _ free unpaused
      · exact fun j _ => (beside_outside _).symm
      · rw [phase]
        rfl
  | _ => exact inv

theorem inv_clear (good : Good n world (.clear i)) : Inv running n (step world (.clear i)) := by
  have bound : i < n := good.bound
  simp only [step]
  cases phase : (world.turns i).phase with
  | clearing =>
    have others : ∀ j, j ≠ i → (world.turns j).phase = .outside := by
      intro j other
      cases (inv.beside i j other).last phase with
      | inl outside => exact outside
      | inr proxied => exact absurd proxied (good.alone i rfl phase j)
    have counted := counted_alone inv bound others
    have own : (world.turns i).phase.holds = false := by rw [phase]; rfl
    have free : ∀ j, (world.turns j).phase.holds = false := by
      intro j
      by_cases same : j = i
      · rw [same, own]
      · rw [others j same]
        rfl
    have active : world.specialistGenerationActive = false := by
      rw [← Bool.not_eq_true, inv.gate]
      rintro ⟨j, holds⟩
      rw [free j] at holds
      cases holds
    have cleared : Inv running n
        (moved { world with generating := 0, specialistGenerationActive := false } i .outside) := by
      apply inv_free inv bound .outside rfl nofun _ _ (fun j _ => free j) (fun going => inv.ended going i own)
      · exact fun j _ => (beside_outside _).symm
      · rw [counted, phase]
        rfl
    rw [← active] at cleared
    exact cleared
  | _ => exact inv

theorem inv_step (event : Event) (good : Good n world event) : Inv running n (step world event) := by
  cases event with
  | enter i => exact inv_enter inv good.bound
  | leave i => exact inv_leave inv good.bound
  | start i helper => exact inv_start inv good.bound helper
  | pause i reclaims => exact inv_pause inv good.bound reclaims
  | session i outcome => exact inv_session inv good.bound outcome
  | mark i => exact inv_mark inv good.bound
  | release i => exact inv_release inv good.bound
  | restart i started => exact inv_restart inv good
  | free i => exact inv_let inv good.bound
  | clear i => exact inv_clear inv good
  | stop =>
    exact {
      beyond := inv.beyond
      beside := inv.beside
      counted := inv.counted
      gate := inv.gate
      ended := nofun
      restarted := nofun
      backend := nofun }

end Steps

theorem inv_new (running : Bool) (n : Nat) : Inv running n (newWorld running) where
  beyond := fun _ _ => rfl
  beside := fun _ _ _ => beside_outside _ |>.1
  counted := by
    have none_ : total n (newWorld running).turns (fun turn => one turn.phase) = 0 :=
      (total_zero_iff _ _ _).mpr fun _ _ => rfl
    change (0 : Int) = ((total n (newWorld running).turns fun turn => one turn.phase : Nat) : Int)
    rw [none_]
    rfl
  gate := by
    constructor
    · nofun
    · rintro ⟨_, holds⟩
      cases holds
  ended := fun _ _ _ => rfl
  restarted := nofun
  backend := fun was _ _ => was

theorem kept_inv (inv : Inv running n world) : Kept running n world where
  exclusive := by
    intro i j different holds
    rw [(inv.beside i j (Ne.symm different)).holder holds]
    exact ⟨rfl, nofun⟩
  counted := inv.counted
  gate := inv.gate
  ended := inv.ended
  backend := inv.backend

end Steps

theorem lease_exclusive (running : Bool) (n : Nat) (events : List Event) (good : Along step (Good n) (newWorld running) events) :
    Kept running n (events.foldl step (newWorld running)) := by
  have preserved : ∀ world event, Inv running n world → Good n world event → Inv running n (step world event) :=
    fun _ event inv good => inv_step inv event good
  exact kept_inv (along_invariant preserved (inv_new running n) events good)

def direct (i : Nat) (rest : List Event) : List Event :=
  [.start i .direct, .pause i true, .session i .admitted, .mark i, .release i, .restart i true, .free i] ++ rest

theorem lease_exclusive_direct : Kept true 2 ((direct 0 [.clear 0, .enter 1, .leave 1]).foldl step (newWorld true)) := by
  apply lease_exclusive true 2
  refine ⟨⟨by decide, nofun, nofun⟩, ⟨by decide, nofun, nofun⟩, ⟨by decide, nofun, nofun⟩, ⟨by decide, nofun, nofun⟩,
    ⟨by decide, nofun, nofun⟩, ⟨by decide, nofun, ?_⟩, ⟨by decide, nofun, nofun⟩, ⟨by decide, ?_, nofun⟩,
    ⟨by decide, nofun, nofun⟩, ⟨by decide, nofun, nofun⟩, trivial⟩
  · intro i started event _ _
    cases event
    rfl
  · intro i _ _ j
    by_cases own : j = 0
    · subst own
      decide
    · have untouched : ((direct 0 []).foldl step (newWorld true)).turns j = newTurn := by
        simp [direct, step, newWorld, newTurn, moved, own]
      intro proxied
      change (((direct 0 []).foldl step (newWorld true)).turns j).phase = .proxied at proxied
      rw [untouched] at proxied
      cases proxied

-- Another turn enters between the direct chat's release of the gate and its clearing of the counter.
theorem lease_shared : ¬ Kept true 2 ((direct 0 [.enter 1, .clear 0, .start 0 .visionpsy]).foldl step (newWorld true)) := by
  intro kept
  have exclusive := kept.exclusive 0 1 (by decide) (by decide)
  exact exclusive.2 (by decide)

end SamosaChat.Gate
