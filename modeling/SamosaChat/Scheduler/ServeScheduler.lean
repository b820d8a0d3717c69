import SamosaChat.Lib.Runs
import Mathlib.Data.List.Range
import Mathlib.Data.UInt

set_option autoImplicit false

namespace SamosaChat.Scheduler

open Runs

-- The int counters are unbounded here; the queue bound keeps them inside an int.
structure ServeScheduler where
  nextTicket : UInt64
  servingTicket : UInt64
  active : Bool
  waiting : Int
  maxWaiting : Int32
  stopping : Bool
  interactiveWaiting : Int

-- `arrival` counts the tickets taken so far without wrapping; the C has the ticket only.
structure Waiter where
  ticket : UInt64
  background : Bool
  arrival : Nat
deriving DecidableEq

inductive Party where
  | request (arrival : Nat)
  | reaper
deriving DecidableEq

-- The scheduler with every thread that is inside acquire or holds the slot. `waiters` are
-- the threads in pthread_cond_wait, oldest first; `admitted` logs the requests let through.
structure World where
  scheduler : ServeScheduler
  waiters : List Waiter
  holders : List Party
  arrivals : Nat
  admitted : List Waiter

def serveSchedulerInit (maxWaiting : Int32) : World where
  scheduler :=
    { nextTicket := 0
      servingTicket := 0
      active := false
      waiting := 0
      maxWaiting := maxWaiting
      stopping := false
      interactiveWaiting := 0 }
  waiters := []
  holders := []
  arrivals := 0
  admitted := []

def keepsWaiting (s : ServeScheduler) (w : Waiter) : Bool :=
  !s.stopping && (s.active || w.ticket != s.servingTicket || (w.background && decide (s.interactiveWaiting > 0)))

def dequeue (s : ServeScheduler) (background : Bool) : ServeScheduler :=
  { s with
    waiting := s.waiting - 1
    interactiveWaiting := if !background then s.interactiveWaiting - 1 else s.interactiveWaiting }

-- The lines below the wait loop: -1 when stopping, else 1 with the slot taken.
def leaveLoop (world : World) (position : Nat) (w : Waiter) : World × Int :=
  let s := dequeue world.scheduler w.background
  let waiters := world.waiters.eraseIdx position
  if s.stopping then ({ world with scheduler := s, waiters := waiters }, -1)
  else
    ({ world with
        scheduler := { s with active := true, servingTicket := s.servingTicket + 1 }
        waiters := waiters
        holders := .request w.arrival :: world.holders
        admitted := world.admitted ++ [w] }, 1)

-- A waiter tests its condition again; `none` is a thread that goes back to wait.
def wake (world : World) (position : Nat) : World × Option Int :=
  match world.waiters[position]? with
  | none => (world, none)
  | some w =>
    if keepsWaiting world.scheduler w then (world, none)
    else
      let left := leaveLoop world position w
      (left.1, some left.2)

def queueFull (s : ServeScheduler) : Bool :=
  (s.active || s.waiting != 0) && decide (s.waiting ≥ s.maxWaiting.toInt)

def enqueue (world : World) (isBackground : Bool) : World :=
  let s := world.scheduler
  { world with
    scheduler := { s with
      nextTicket := s.nextTicket + 1
      waiting := s.waiting + 1
      interactiveWaiting := if !isBackground then s.interactiveWaiting + 1 else s.interactiveWaiting }
    waiters := world.waiters ++ [{ ticket := s.nextTicket, background := isBackground, arrival := world.arrivals }]
    arrivals := world.arrivals + 1 }

-- The critical section up to the first pthread_cond_wait or to the return.
def serveSchedulerAcquire (world : World) (isBackground : Bool) : World × Option Int :=
  if world.scheduler.stopping then (world, some (-1))
  else if queueFull world.scheduler then (world, some 0)
  else wake (enqueue world isBackground) world.waiters.length

def serveSchedulerRelease (world : World) (holder : Nat) : World :=
  if holder < world.holders.length then
    { world with
      scheduler := { world.scheduler with active := false }
      holders := world.holders.eraseIdx holder }
  else world

def serveSchedulerTryIdle (world : World) : World × Int :=
  let s := world.scheduler
  if !s.stopping && !s.active && s.waiting == 0 then
    ({ world with scheduler := { s with active := true }, holders := .reaper :: world.holders }, 1)
  else (world, 0)

inductive Action where
  | acquire (isBackground : Bool)
  | wake (position : Nat)
  | tryIdle
  | release (holder : Nat)
  | stop

def step (world : World) : Action → World
  | .acquire isBackground => (serveSchedulerAcquire world isBackground).1
  | .wake position => (wake world position).1
  | .tryIdle => (serveSchedulerTryIdle world).1
  | .release holder => serveSchedulerRelease world holder
  | .stop => { world with scheduler := { world.scheduler with stopping := true } }

def run (world : World) (actions : List Action) : World :=
  actions.foldl step world

-- Tickets are handed out and served in one sequence; until the server stops, the waiters
-- are exactly the arrivals after the admitted ones.
structure SlotInv (world : World) : Prop where
  held : world.holders.length ≤ 1
  active : world.scheduler.active = decide (world.holders ≠ [])
  waiting : world.scheduler.waiting = world.waiters.length
  interactive : world.scheduler.interactiveWaiting = world.waiters.countP (fun w => !w.background)
  bound : (world.waiters.length : Int) ≤ max 1 world.scheduler.maxWaiting.toInt
  ordered : ((world.admitted ++ world.waiters).map (·.arrival)).Pairwise (· < ·)
  taken : ∀ w ∈ world.admitted ++ world.waiters, w.arrival < world.arrivals
  tickets : ∀ w ∈ world.admitted ++ world.waiters, w.ticket = UInt64.ofNat w.arrival
  next : world.scheduler.nextTicket = UInt64.ofNat world.arrivals
  serving : world.scheduler.servingTicket = UInt64.ofNat world.admitted.length
  queue : world.scheduler.stopping = false →
    world.waiters.map (·.arrival) = List.range' world.admitted.length world.waiters.length ∧
      world.arrivals = world.admitted.length + world.waiters.length

theorem slot_inv_init (maxWaiting : Int32) : SlotInv (serveSchedulerInit maxWaiting) where
  held := by simp [serveSchedulerInit]
  active := by simp [serveSchedulerInit]
  waiting := by simp [serveSchedulerInit]
  interactive := by simp [serveSchedulerInit]
  bound := by simp [serveSchedulerInit]
  ordered := by simp [serveSchedulerInit]
  taken := by simp [serveSchedulerInit]
  tickets := by simp [serveSchedulerInit]
  next := rfl
  serving := rfl
  queue := by simp [serveSchedulerInit]

theorem ticket_next (n : Nat) : UInt64.ofNat n + 1 = UInt64.ofNat (n + 1) := by
  rw [← UInt64.toNat_inj]
  simp [UInt64.toNat_add, UInt64.toNat_ofNat']

variable {world : World}

theorem enqueue_inv (inv : SlotInv world) (isBackground : Bool)
    (open_ : world.scheduler.stopping = false) (room : queueFull world.scheduler = false) :
    SlotInv (enqueue world isBackground) := by
  obtain ⟨arrived, counted⟩ := inv.queue open_
  refine ⟨inv.held, inv.active, ?_, ?_, ?_, ?_, ?_, ?_, ?_, inv.serving, fun _ => ⟨?_, ?_⟩⟩
  · simp [enqueue, inv.waiting]
  · cases isBackground <;> simp [enqueue, inv.interactive]
  · have wait := inv.waiting
    have active := inv.active
    simp only [queueFull, Bool.and_eq_false_iff, Bool.or_eq_false_iff, bne_eq_false_iff_eq, decide_eq_false_iff_not] at room
    simp only [enqueue, List.length_append, List.length_cons, List.length_nil]
    push_cast
    rcases room with ⟨_, none⟩ | below <;> omega
  · simp only [enqueue]
    rw [← List.append_assoc, List.map_append, List.pairwise_append]
    refine ⟨inv.ordered, by simp, fun a member b last => ?_⟩
    obtain ⟨w, old, rfl⟩ := List.mem_map.mp member
    simp only [List.map_cons, List.map_nil, List.mem_singleton] at last
    exact last ▸ inv.taken w old
  · intro w member
    simp only [enqueue] at member ⊢
    rw [← List.append_assoc] at member
    rcases List.mem_append.mp member with old | new
    · have before := inv.taken w old
      omega
    · rw [List.mem_singleton.mp new]
      exact Nat.lt_succ_self _
  · intro w member
    simp only [enqueue] at member
    rw [← List.append_assoc] at member
    rcases List.mem_append.mp member with old | new
    · exact inv.tickets w old
    · rw [List.mem_singleton.mp new]
      exact inv.next
  · simp only [enqueue, inv.next, ticket_next]
  · simp only [enqueue, List.map_append, List.map_cons, List.map_nil, arrived, List.length_append,
      List.length_cons, List.length_nil, counted]
    rw [List.range'_concat]
    simp
  · simp only [enqueue, List.length_append, List.length_cons, List.length_nil]
    omega

theorem served_first (inv : SlotInv world) (open_ : world.scheduler.stopping = false)
    (position : Nat) (w : Waiter) (here : world.waiters[position]? = some w)
    (served : w.ticket = world.scheduler.servingTicket) : position = 0 := by
  obtain ⟨inside, at_⟩ := List.getElem?_eq_some_iff.mp here
  obtain ⟨arrived, _⟩ := inv.queue open_
  have number : w.arrival = world.admitted.length + position := by
    have mapped : (world.waiters.map (·.arrival))[position]? = some w.arrival := by simp [here]
    rw [arrived, List.getElem?_range' inside] at mapped
    have same := Option.some.inj mapped
    omega
  have ticket := inv.tickets w (List.mem_append_right _ (List.mem_of_getElem? here))
  rw [ticket, inv.serving, number, ← UInt64.toNat_inj, UInt64.toNat_ofNat', UInt64.toNat_ofNat'] at served
  have bound := inv.bound
  have small := world.scheduler.maxWaiting.toInt_lt
  omega

variable {w : Waiter}

theorem leaves_loop {s : ServeScheduler} (leaves : keepsWaiting s w = false) (open_ : s.stopping = false) :
    s.active = false ∧ w.ticket = s.servingTicket ∧ (w.background = true → s.interactiveWaiting ≤ 0) := by
  simp only [keepsWaiting, open_, Bool.not_false, Bool.true_and, Bool.or_eq_false_iff, bne_eq_false_iff_eq,
    Bool.and_eq_false_iff, decide_eq_false_iff_not, gt_iff_lt, not_lt] at leaves
  refine ⟨leaves.1.1, leaves.1.2, fun background => ?_⟩
  rcases leaves.2 with interactive | none
  · rw [background] at interactive
    cases interactive
  · exact none

theorem dequeue_counts (inv : SlotInv world) (position : Nat) (w : Waiter) (here : world.waiters[position]? = some w) :
    (dequeue world.scheduler w.background).waiting = (world.waiters.eraseIdx position).length ∧
      (dequeue world.scheduler w.background).interactiveWaiting =
        (world.waiters.eraseIdx position).countP (fun w => !w.background) := by
  obtain ⟨inside, at_⟩ := List.getElem?_eq_some_iff.mp here
  have perm : (w :: world.waiters.eraseIdx position).Perm world.waiters := by
    rw [← at_]
    exact List.getElem_cons_eraseIdx_perm inside
  have length := perm.length_eq
  have count := perm.countP_eq fun w => !w.background
  have wait := inv.waiting
  have waitInteractive := inv.interactive
  simp only [List.length_cons] at length
  refine ⟨by simp only [dequeue]; omega, ?_⟩
  cases kind : w.background with
  | true =>
    simp only [dequeue, Bool.not_true, Bool.false_eq_true, if_false]
    simp only [List.countP_cons, kind, Bool.not_true, Bool.false_eq_true, if_false] at count
    omega
  | false =>
    simp only [dequeue, Bool.not_false, if_true]
    simp only [List.countP_cons, kind, Bool.not_false, if_true] at count
    omega

-- Leaving because the server stops: one waiter fewer, nobody admitted.
theorem abandon_inv (inv : SlotInv world) (position : Nat) (w : Waiter)
    (here : world.waiters[position]? = some w) (stopping : world.scheduler.stopping = true) :
    SlotInv { world with
      scheduler := dequeue world.scheduler w.background
      waiters := world.waiters.eraseIdx position } := by
  obtain ⟨waiting, interactive⟩ := dequeue_counts inv position w here
  have kept : (world.waiters.eraseIdx position).Sublist world.waiters := List.eraseIdx_sublist _ _
  have all : (world.admitted ++ world.waiters.eraseIdx position).Sublist (world.admitted ++ world.waiters) :=
    (List.Sublist.refl _).append kept
  have shorter := kept.length_le
  have bound := inv.bound
  refine ⟨inv.held, inv.active, waiting, interactive, ?_, inv.ordered.sublist (all.map _),
    fun x member => inv.taken x (all.subset member), fun x member => inv.tickets x (all.subset member),
    inv.next, inv.serving, fun open_ => ?_⟩
  · simp only [dequeue]
    omega
  · simp only [dequeue, stopping] at open_
    cases open_

theorem admit_inv (inv : SlotInv world) (w : Waiter) (rest : List Waiter)
    (first : world.waiters = w :: rest) (open_ : world.scheduler.stopping = false)
    (free : world.scheduler.active = false) :
    SlotInv { world with
      scheduler := { dequeue world.scheduler w.background with
        active := true
        servingTicket := (dequeue world.scheduler w.background).servingTicket + 1 }
      waiters := rest
      holders := .request w.arrival :: world.holders
      admitted := world.admitted ++ [w] } := by
  obtain ⟨waiting, interactive⟩ := dequeue_counts inv 0 w (by simp [first])
  simp only [first, List.eraseIdx_cons_zero] at waiting interactive
  have nobody : world.holders = [] := by
    have active := inv.active
    rw [free] at active
    simpa using active.symm
  have sequence : (world.admitted ++ [w]) ++ rest = world.admitted ++ world.waiters := by simp [first]
  have bound := inv.bound
  refine ⟨by simp [nobody], by simp, waiting, interactive, ?_, ?_, ?_, ?_, inv.next, ?_, fun _ => ?_⟩
  · rw [first] at bound
    simp only [List.length_cons] at bound
    simp only [dequeue]
    omega
  · rw [sequence]
    exact inv.ordered
  · rw [sequence]
    exact inv.taken
  · rw [sequence]
    exact inv.tickets
  · simp only [dequeue, inv.serving, ticket_next, List.length_append, List.length_cons, List.length_nil]
  · obtain ⟨arrived, counted⟩ := inv.queue open_
    simp only [first, List.map_cons, List.length_cons, List.range'_succ, List.cons.injEq] at arrived counted
    simp only [List.length_append, List.length_cons, List.length_nil]
    exact ⟨arrived.2, by omega⟩

theorem wake_inv (inv : SlotInv world) (position : Nat) : SlotInv (wake world position).1 := by
  unfold wake
  cases here : world.waiters[position]? with
  | none => exact inv
  | some w =>
    dsimp only
    cases leaves : keepsWaiting world.scheduler w with
    | true => exact inv
    | false =>
      simp only [Bool.false_eq_true, if_false, leaveLoop]
      cases open_ : world.scheduler.stopping with
      | true =>
        have stops : (dequeue world.scheduler w.background).stopping = true := open_
        rw [if_pos stops]
        exact abandon_inv inv position w here open_
      | false =>
        have runs : ¬ (dequeue world.scheduler w.background).stopping = true := by simp [dequeue, open_]
        obtain ⟨free, served, _⟩ := leaves_loop leaves open_
        have oldest := served_first inv open_ position w here served
        subst oldest
        obtain ⟨rest, first⟩ : ∃ rest, world.waiters = w :: rest := by
          cases all : world.waiters with
          | nil => simp [all] at here
          | cons x rest =>
            simp only [all, List.getElem?_cons_zero, Option.some.injEq] at here
            exact ⟨rest, by rw [here]⟩
        rw [if_neg runs]
        simp only [first, List.eraseIdx_cons_zero]
        exact admit_inv inv w rest first open_ free

theorem step_inv (world : World) (action : Action) (inv : SlotInv world) : SlotInv (step world action) := by
  cases action with
  | acquire isBackground =>
    simp only [step, serveSchedulerAcquire]
    cases open_ : world.scheduler.stopping with
    | true => exact inv
    | false =>
      cases room : queueFull world.scheduler with
      | true => exact inv
      | false => exact wake_inv (enqueue_inv inv isBackground open_ room) _
  | wake position => exact wake_inv inv position
  | tryIdle =>
    simp only [step, serveSchedulerTryIdle]
    split
    · rename_i idle
      simp only [Bool.and_eq_true, Bool.not_eq_true'] at idle
      have nobody : world.holders = [] := by
        have active := inv.active
        rw [idle.1.2] at active
        simpa using active.symm
      exact ⟨by simp [nobody], by simp, inv.waiting, inv.interactive, inv.bound, inv.ordered, inv.taken,
        inv.tickets, inv.next, inv.serving, inv.queue⟩
    · exact inv
  | release holder =>
    simp only [step, serveSchedulerRelease]
    split
    · rename_i inside
      have one := inv.held
      have nobody : world.holders.eraseIdx holder = [] := by
        have less := List.length_eraseIdx_of_lt inside
        exact List.eq_nil_of_length_eq_zero (by omega)
      exact ⟨by simp [nobody], by simp [nobody], inv.waiting, inv.interactive, inv.bound, inv.ordered, inv.taken,
        inv.tickets, inv.next, inv.serving, inv.queue⟩
    · exact inv
  | stop =>
    exact ⟨inv.held, inv.active, inv.waiting, inv.interactive, inv.bound, inv.ordered, inv.taken, inv.tickets,
      inv.next, inv.serving, fun open_ => absurd open_ (by simp [step])⟩

theorem run_inv (maxWaiting : Int32) (actions : List Action) : SlotInv (run (serveSchedulerInit maxWaiting) actions) :=
  run_invariant step_inv (slot_inv_init maxWaiting) actions

def Stuck (world : World) : Prop :=
  world.scheduler.stopping = false ∧ world.holders = [] ∧ world.waiters ≠ [] ∧
    ∀ w ∈ world.waiters, keepsWaiting world.scheduler w = true

def Overtakes (world : World) : Action → Prop
  | .acquire false => world.scheduler.stopping = false ∧ queueFull world.scheduler = false ∧
      ∃ w ∈ world.waiters, w.background = true
  | _ => False

def InteractiveFirst (world : World) : Prop :=
  world.waiters.Pairwise fun a b => a.background = true → b.background = true

theorem wake_sublist (world : World) (position : Nat) : (wake world position).1.waiters.Sublist world.waiters := by
  unfold wake
  cases world.waiters[position]? with
  | none => exact List.Sublist.refl _
  | some w =>
    dsimp only
    split
    · exact List.Sublist.refl _
    · unfold leaveLoop
      dsimp only
      split
      · exact List.eraseIdx_sublist _ _
      · exact List.eraseIdx_sublist _ _

theorem step_interactive_first (world : World) (action : Action) (first : InteractiveFirst world)
    (fair : ¬ Overtakes world action) : InteractiveFirst (step world action) := by
  cases action with
  | acquire isBackground =>
    simp only [step, serveSchedulerAcquire]
    cases open_ : world.scheduler.stopping with
    | true => exact first
    | false =>
      cases room : queueFull world.scheduler with
      | true => exact first
      | false =>
        refine List.Pairwise.sublist (wake_sublist _ _) ?_
        simp only [enqueue, List.pairwise_append]
        refine ⟨first, by simp, fun a member b last => ?_⟩
        rw [List.mem_singleton.mp last]
        intro background
        cases isBackground with
        | true => rfl
        | false => exact absurd ⟨open_, room, a, member, background⟩ fair
  | wake position => exact List.Pairwise.sublist (wake_sublist _ _) first
  | tryIdle =>
    simp only [step, serveSchedulerTryIdle]
    split
    · exact first
    · exact first
  | release holder =>
    simp only [step, serveSchedulerRelease]
    split
    · exact first
    · exact first
  | stop => exact first

theorem head_ticket (inv : SlotInv world) (open_ : world.scheduler.stopping = false) {rest : List Waiter}
    (head : world.waiters = w :: rest) : w.ticket = world.scheduler.servingTicket := by
  obtain ⟨arrived, _⟩ := inv.queue open_
  simp only [head, List.map_cons, List.length_cons, List.range'_succ, List.cons.injEq] at arrived
  rw [inv.tickets w (by simp [head]), inv.serving, arrived.1]

theorem interactive_first_free (inv : SlotInv world) (first : InteractiveFirst world) : ¬ Stuck world := by
  rintro ⟨open_, nobody, some, blocked⟩
  cases head : world.waiters with
  | nil => exact some head
  | cons w rest =>
    have waits := blocked w (by simp [head])
    have free : world.scheduler.active = false := by simp [inv.active, nobody]
    simp only [keepsWaiting, open_, free, head_ticket inv open_ head, Bool.not_false, Bool.true_and,
      Bool.false_or, bne_self_eq_false, Bool.and_eq_true, decide_eq_true_eq] at waits
    obtain ⟨background, interactive⟩ := waits
    have counted := inv.interactive
    rw [InteractiveFirst, head, List.pairwise_cons] at first
    have none : world.waiters.countP (fun w => !w.background) = 0 := by
      rw [List.countP_eq_zero, head]
      intro x member
      rcases List.mem_cons.mp member with here | later
      · simp [here, background]
      · simp [first.1 x later background]
    omega

theorem blocked_head (inv : SlotInv world) (open_ : world.scheduler.stopping = false)
    (nobody : world.holders = []) {rest : List Waiter} (head : world.waiters = w :: rest)
    (background : w.background = true) (behind : ∃ x ∈ rest, x.background = false) : Stuck world := by
  refine ⟨open_, nobody, by simp [head], fun x member => ?_⟩
  have counted := inv.interactive
  have positive : 0 < world.waiters.countP (fun w => !w.background) := by
    rw [List.countP_pos_iff]
    obtain ⟨x, inside, interactive⟩ := behind
    exact ⟨x, by simp [head, inside], by simp [interactive]⟩
  obtain ⟨position, inside, at_⟩ := List.mem_iff_getElem.mp member
  have here : world.waiters[position]? = some x := by rw [List.getElem?_eq_getElem inside, at_]
  simp only [keepsWaiting, open_, Bool.not_false, Bool.true_and, Bool.or_eq_true, bne_iff_ne, Bool.and_eq_true, decide_eq_true_eq]
  by_cases served : x.ticket = world.scheduler.servingTicket
  · have first := served_first inv open_ position x here served
    subst first
    simp only [head, List.getElem?_cons_zero, Option.some.injEq] at here
    subst here
    exact .inr ⟨background, by omega⟩
  · exact .inl (.inr served)

-- Letting the holders release and the interactive requests in front go by brings the
-- background request to the head, with the one that overtook it still behind.
theorem inversion_gets_stuck (before : List Waiter) (inv : SlotInv world)
    (open_ : world.scheduler.stopping = false) {rest : List Waiter}
    (queue : world.waiters = before ++ w :: rest) (ahead : ∀ x ∈ before, x.background = false)
    (background : w.background = true) (behind : ∃ x ∈ rest, x.background = false) : ∃ actions, Stuck (run world actions) := by
  induction before generalizing world with
  | nil =>
    refine ⟨[.release 0], ?_⟩
    have next := step_inv world (.release 0) inv
    have one := inv.held
    simp only [run, List.foldl_cons, List.foldl_nil]
    by_cases holds : 0 < world.holders.length
    · simp only [step, serveSchedulerRelease, holds, if_true] at next ⊢
      have gone : world.holders.eraseIdx 0 = [] := by
        have less := List.length_eraseIdx_of_lt holds
        exact List.eq_nil_of_length_eq_zero (by omega)
      exact blocked_head next open_ gone queue background behind
    · simp only [step, serveSchedulerRelease, holds, if_false]
      exact blocked_head inv open_ (List.eq_nil_of_length_eq_zero (by omega)) queue background behind
  | cons x before ih =>
    -- Free the slot, then wake the interactive request at the head.
    have free : ∃ actions, SlotInv (run world actions) ∧ (run world actions).scheduler.stopping = false ∧
        (run world actions).waiters = world.waiters ∧ (run world actions).scheduler.active = false := by
      by_cases holds : 0 < world.holders.length
      · refine ⟨[.release 0], step_inv world (.release 0) inv, ?_, ?_, ?_⟩
        · simp [run, step, serveSchedulerRelease, holds, open_]
        · simp [run, step, serveSchedulerRelease, holds]
        · simp [run, step, serveSchedulerRelease, holds]
      · have nobody : world.holders = [] := List.eq_nil_of_length_eq_zero (by omega)
        exact ⟨[], inv, open_, rfl, by simp [run, inv.active, nobody]⟩
    obtain ⟨actions, freed, still, same, idle⟩ := free
    generalize reached : run world actions = mid at freed still same idle
    have head : mid.waiters = x :: (before ++ w :: rest) := by rw [same, queue, List.cons_append]
    have goes : keepsWaiting mid.scheduler x = false := by
      simp [keepsWaiting, still, idle, head_ticket freed still head, ahead x (by simp)]
    have woken : (step mid (.wake 0)).waiters = before ++ w :: rest ∧
        (step mid (.wake 0)).scheduler.stopping = false := by
      have kept : (dequeue mid.scheduler x.background).stopping = false := still
      simp [step, wake, head, goes, leaveLoop, kept]
    obtain ⟨more, stuck⟩ := ih (step_inv mid (.wake 0) freed) woken.2 woken.1
      (fun y member => ahead y (List.mem_cons_of_mem _ member))
    refine ⟨actions ++ .wake 0 :: more, ?_⟩
    rw [run, List.foldl_append, List.foldl_cons]
    rw [run] at reached
    rw [reached]
    exact stuck

theorem split_first (waiters : List Waiter) (some_ : ∃ w ∈ waiters, w.background = true) :
    ∃ before w rest, waiters = before ++ w :: rest ∧ (∀ x ∈ before, x.background = false) ∧ w.background = true := by
  induction waiters with
  | nil =>
    obtain ⟨w, none, _⟩ := some_
    cases none
  | cons x rest ih =>
    cases kind : x.background with
    | true => exact ⟨[], x, rest, rfl, by simp, kind⟩
    | false =>
      obtain ⟨w, member, background⟩ := some_
      have later : w ∈ rest := by
        rcases List.mem_cons.mp member with here | later
        · rw [here, kind] at background
          cases background
        · exact later
      obtain ⟨before, w, after, split, ahead, found⟩ := ih ⟨w, later, background⟩
      refine ⟨x :: before, w, after, by rw [split, List.cons_append], fun y inside => ?_, found⟩
      rcases List.mem_cons.mp inside with here | old
      · rw [here]
        exact kind
      · exact ahead y old

theorem overtaking_gets_stuck (inv : SlotInv world) {action : Action}
    (overtakes : Overtakes world action) : ∃ rest, Stuck (run world (action :: rest)) := by
  cases action with
  | acquire isBackground =>
    cases isBackground with
    | true => cases overtakes
    | false =>
      obtain ⟨open_, room, some_⟩ := overtakes
      obtain ⟨before, w, rest, queue, ahead, background⟩ := split_first world.waiters some_
      have queued := enqueue_inv inv false open_ room
      -- The new request is not the oldest, so its first test sends it to wait.
      have waits : step world (.acquire false) = enqueue world false := by
        have last : (enqueue world false).waiters[world.waiters.length]? =
            some { ticket := world.scheduler.nextTicket, background := false, arrival := world.arrivals } := by
          simp [enqueue]
        simp only [step, serveSchedulerAcquire, open_, room, Bool.false_eq_true, if_false, wake, last]
        cases leaves : keepsWaiting (enqueue world false).scheduler
            { ticket := world.scheduler.nextTicket, background := false, arrival := world.arrivals } with
        | true => rfl
        | false =>
          obtain ⟨_, served, _⟩ := leaves_loop leaves open_
          have zero := served_first queued open_ _ _ last served
          simp [queue] at zero
      have grown : (enqueue world false).waiters = before ++ w :: (rest ++
          [{ ticket := world.scheduler.nextTicket, background := false, arrival := world.arrivals }]) := by
        simp [enqueue, queue]
      obtain ⟨more, stuck⟩ := inversion_gets_stuck before queued open_ grown ahead background
        ⟨_, List.mem_append_right _ (List.mem_singleton_self _), rfl⟩
      refine ⟨more, ?_⟩
      rw [run, List.foldl_cons, waits]
      exact stuck
  | wake position => cases overtakes
  | tryIdle => cases overtakes
  | release holder => cases overtakes
  | stop => cases overtakes

-- A background request goes through only when no interactive request is left waiting.
theorem admission_priority (inv : SlotInv world) (action : Action) : (step world action).admitted = world.admitted ∨
    ∃ w, (step world action).admitted = world.admitted ++ [w] ∧
      (w.background = true → ∀ x ∈ (step world action).waiters, x.background = true) := by
  have woken : ∀ world : World, SlotInv world → ∀ position,
      (wake world position).1.admitted = world.admitted ∨
      ∃ w, (wake world position).1.admitted = world.admitted ++ [w] ∧
        (w.background = true → ∀ x ∈ (wake world position).1.waiters, x.background = true) := by
    intro world inv position
    have sublist := wake_sublist world position
    unfold wake at sublist ⊢
    cases here : world.waiters[position]? with
    | none => exact .inl rfl
    | some w =>
      simp only [here] at sublist
      dsimp only
      cases leaves : keepsWaiting world.scheduler w with
      | true => exact .inl rfl
      | false =>
        simp only [leaves, Bool.false_eq_true, if_false] at sublist ⊢
        cases open_ : world.scheduler.stopping with
        | true =>
          have stops : (dequeue world.scheduler w.background).stopping = true := open_
          exact .inl (by simp [leaveLoop, stops])
        | false =>
          have runs : (dequeue world.scheduler w.background).stopping = false := open_
          refine .inr ⟨w, by simp [leaveLoop, runs], fun background x member => ?_⟩
          obtain ⟨_, _, none⟩ := leaves_loop leaves open_
          have counted := inv.interactive
          have zero : world.waiters.countP (fun w => !w.background) = 0 := by
            have few := none background
            omega
          have all := List.countP_eq_zero.mp zero x (sublist.subset member)
          simpa using all
  cases action with
  | acquire isBackground =>
    simp only [step, serveSchedulerAcquire]
    cases open_ : world.scheduler.stopping with
    | true => exact .inl rfl
    | false =>
      cases room : queueFull world.scheduler with
      | true => exact .inl rfl
      | false => exact woken _ (enqueue_inv inv isBackground open_ room) _
  | wake position => exact woken world inv position
  | tryIdle =>
    simp only [step, serveSchedulerTryIdle]
    split
    · exact .inl rfl
    · exact .inl rfl
  | release holder =>
    simp only [step, serveSchedulerRelease]
    split
    · exact .inl rfl
    · exact .inl rfl
  | stop => exact .inl rfl

theorem step_limit (world : World) (action : Action) : (step world action).scheduler.maxWaiting = world.scheduler.maxWaiting := by
  have woken : ∀ world : World, ∀ position,
      (wake world position).1.scheduler.maxWaiting = world.scheduler.maxWaiting := by
    intro world position
    unfold wake
    cases world.waiters[position]? with
    | none => rfl
    | some w =>
      dsimp only
      split
      · rfl
      · unfold leaveLoop
        dsimp only
        split <;> rfl
  cases action with
  | acquire isBackground =>
    simp only [step, serveSchedulerAcquire]
    split
    · rfl
    · split
      · rfl
      · exact woken _ _
  | wake position => exact woken world position
  | tryIdle =>
    simp only [step, serveSchedulerTryIdle]
    split <;> rfl
  | release holder =>
    simp only [step, serveSchedulerRelease]
    split <;> rfl
  | stop => rfl

-- What every run of the generation slot keeps; and when no interactive request enters the
-- queue behind a background one, some waiter can always go. Each such entry can end in a
-- state where none can.
theorem generation_slot (maxWaiting : Int32) (actions : List Action) :
    let world := run (serveSchedulerInit maxWaiting) actions
    (world.holders.length ≤ 1 ∧ (world.scheduler.active = true ↔ world.holders ≠ [])) ∧
      world.scheduler.waiting = world.waiters.length ∧
      world.scheduler.interactiveWaiting = world.waiters.countP (fun w => !w.background) ∧
      world.scheduler.waiting ≤ max 1 maxWaiting.toInt ∧
      ((world.admitted ++ world.waiters).map (·.arrival)).Pairwise (· < ·) ∧
      (∀ w ∈ world.admitted ++ world.waiters, w.ticket = UInt64.ofNat w.arrival) ∧
      (∀ action, (step world action).admitted = world.admitted ∨
        ∃ w, (step world action).admitted = world.admitted ++ [w] ∧
          (w.background = true → ∀ x ∈ (step world action).waiters, x.background = true)) ∧
      (Along step (fun world action => ¬ Overtakes world action) (serveSchedulerInit maxWaiting) actions →
        ¬ Stuck world) ∧
      ∀ action, Overtakes world action → ∃ rest, Stuck (run world (action :: rest)) := by
  have inv := run_inv maxWaiting actions
  have limit : (run (serveSchedulerInit maxWaiting) actions).scheduler.maxWaiting = maxWaiting :=
    run_invariant (fun s a same => (step_limit s a).trans same) rfl actions
  refine ⟨⟨inv.held, by rw [inv.active, decide_eq_true_eq]⟩, inv.waiting, inv.interactive, ?_, inv.ordered,
    inv.tickets, admission_priority inv, fun fair => ?_, fun action => overtaking_gets_stuck inv⟩
  · have bound := inv.bound
    rw [limit] at bound
    rw [inv.waiting]
    exact bound
  · have start : InteractiveFirst (serveSchedulerInit maxWaiting) := List.Pairwise.nil
    exact interactive_first_free inv (along_invariant step_interactive_first start actions fair)

-- Queue 4: one request holds the slot, a background and an interactive request queue
-- behind it in this order, the holder releases.
theorem overtaken_background_stuck :
    Stuck (run (serveSchedulerInit 4) [.acquire false, .acquire true, .acquire false, .release 0]) :=
  ⟨by decide, by decide, by decide, by decide⟩

end SamosaChat.Scheduler
