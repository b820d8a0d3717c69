import SamosaChat.App.Clients
import SamosaChat.Lib.Runs

set_option autoImplicit false

namespace SamosaChat.App

open Runs Function

-- A request's thread: before the client table is locked it has read the clock, after that it
-- still has to mark that a client was seen.
inductive Handler
  | idle
  | clocked (request : Lifecycle) (now : Int)
  | unlocked (request : Lifecycle)

inductive Watchdog
  | asleep
  | clocked (now : Int)
  | stopper
  | done
deriving DecidableEq

-- `processed` is kept for the statements: the requests in the order in which they held the lock, each
-- with the clock its thread had read.
structure World where
  clock : Int
  clients : List AppClient
  closeDeadlineMonoMs : Int
  clientSeen : Bool
  stopping : Bool
  handlers : Nat → Handler
  watchdog : Watchdog
  answers : List (Nat × Nat)
  processed : List (Int × Lifecycle)

inductive Event
  | pass (ms : Nat)
  | arrive (i : Nat) (request : Lifecycle)
  | handle (i : Nat)
  | mark (i : Nat)
  | look
  | decide
  | stop
  | shutdown

def appLifecycleLocked (world : World) (i : Nat) (request : Lifecycle) (now : Int) : World :=
  let pruned := prune now world.clients
  let changed :=
    if request.action = .close then appClientRemove pruned request.clientId
    else appClientUpsert pruned request.clientId now request.hidden
  let clients := prune now changed
  let active := activeClients clients
  { world with
    clients := clients
    closeDeadlineMonoMs :=
      if active > 0 then 0
      else if request.action = .close then now + appCloseGraceMs
      else world.closeDeadlineMonoMs
    handlers := Function.update world.handlers i (.unlocked request)
    answers := world.answers ++ [(i, active)]
    processed := world.processed ++ [(now, request)] }

def hadVisible (clients : List AppClient) : Bool :=
  clients.any fun client => client.id.isSome && !client.hidden

def watchdogDeadline (world : World) (now : Int) (active : Nat) : Int :=
  if world.clientSeen ∧ active = 0 ∧ world.closeDeadlineMonoMs = 0 ∧ hadVisible world.clients then
    now + appStaleCloseGraceMs
  else world.closeDeadlineMonoMs

def watchdogLocked (world : World) (now : Int) : World :=
  let clients := prune now world.clients
  let active := activeClients clients
  let deadline := watchdogDeadline world now active
  { world with
    clients := clients
    closeDeadlineMonoMs := deadline
    watchdog := if active ≠ 0 ∨ deadline ≤ 0 ∨ now < deadline then .asleep else .stopper }

def step (world : World) : Event → World
  | .pass ms => { world with clock := world.clock + ms }
  | .arrive i request =>
    match world.handlers i with
    | .idle => { world with handlers := Function.update world.handlers i (.clocked request world.clock) }
    | _ => world
  | .handle i =>
    match world.handlers i with
    | .clocked request now => appLifecycleLocked world i request now
    | _ => world
  | .mark i =>
    match world.handlers i with
    | .unlocked request =>
      { world with
        clientSeen := world.clientSeen || decide (request.action = .opening ∨ request.action = .visibility)
        handlers := Function.update world.handlers i .idle }
    | _ => world
  | .look =>
    match world.watchdog with
    | .asleep =>
      if world.stopping then { world with watchdog := .done } else { world with watchdog := .clocked world.clock }
    | _ => world
  | .decide =>
    match world.watchdog with
    | .clocked now => watchdogLocked world now
    | _ => world
  | .stop =>
    match world.watchdog with
    | .stopper => { world with stopping := true, watchdog := .done }
    | _ => world
  | .shutdown => { world with stopping := true }

def newWorld (clock : Int) : World where
  clock := clock
  clients := noClients
  closeDeadlineMonoMs := 0
  clientSeen := false
  stopping := false
  handlers _ := .idle
  watchdog := .asleep
  answers := []
  processed := []

def later (id : ClientId) (heard : Option (Int × Lifecycle)) (entry : Int × Lifecycle) : Option (Int × Lifecycle) :=
  if entry.2.clientId = id ∧ ∀ last ∈ heard, last.1 ≤ entry.1 then some entry else heard

def lastHeard (processed : List (Int × Lifecycle)) (id : ClientId) : Option (Int × Lifecycle) :=
  processed.foldl (later id) none

-- The client never opened, has closed, or is visible and silent for longer than the stale period.
def Gone (processed : List (Int × Lifecycle)) (clock : Int) (id : ClientId) : Prop :=
  ∀ last ∈ lastHeard processed id, last.2.action = .close ∨ Stale clock last.1 last.2.hidden

instance (processed : List (Int × Lifecycle)) (clock : Int) (id : ClientId) : Decidable (Gone processed clock id) :=
  inferInstanceAs (Decidable (∀ last ∈ lastHeard processed id, _))

def StopsWhenGone (world : World) : Prop :=
  world.watchdog = .stopper → ∀ id, Gone world.processed world.clock id

-- A request holds the lock after every request of its client whose clock is not later; unless it closes,
-- there is a cell for its client, and the watchdog has not already decided to stop.
def Good (world : World) : Event → Prop
  | .handle i =>
    ∀ request now, world.handlers i = .clocked request now →
      (∀ entry ∈ world.processed, entry.2.clientId = request.clientId → entry.1 ≤ now) ∧
      (request.action ≠ .close → HasRoom (prune now world.clients) request.clientId ∧ world.watchdog ≠ .stopper)
  | _ => True

section Heard

variable {processed : List (Int × Lifecycle)} {entry : Int × Lifecycle} {id : ClientId}

theorem last_heard_among : ∀ last ∈ lastHeard processed id, last ∈ processed ∧ last.2.clientId = id := by
  induction processed using List.reverseRecOn with
  | nil => exact fun _ none => nomatch none
  | append_singleton processed entry ih =>
    intro last heard
    rw [lastHeard, List.foldl_append, List.foldl_cons, List.foldl_nil, later] at heard
    split at heard
    · rename_i newer
      cases heard
      exact ⟨by simp, newer.1⟩
    · obtain ⟨among, named⟩ := ih last heard
      exact ⟨List.mem_append_left _ among, named⟩

theorem last_heard_new (ordered : ∀ earlier ∈ processed, earlier.2.clientId = entry.2.clientId → earlier.1 ≤ entry.1) :
    lastHeard (processed ++ [entry]) entry.2.clientId = some entry := by
  rw [lastHeard, List.foldl_append, List.foldl_cons, List.foldl_nil, later, if_pos]
  refine ⟨rfl, fun last heard => ?_⟩
  obtain ⟨among, named⟩ := last_heard_among last heard
  exact ordered last among named

theorem last_heard_other (other : entry.2.clientId ≠ id) : lastHeard (processed ++ [entry]) id = lastHeard processed id := by
  rw [lastHeard, List.foldl_append, List.foldl_cons, List.foldl_nil, later, if_neg (fun newer => other newer.1)]
  rfl

end Heard

structure Inv (world : World) : Prop where
  listed : ∀ id, ∀ last ∈ lastHeard world.processed id, last.2.action = .close ∨
    Stale world.clock last.1 last.2.hidden ∨
      { id := some id, seenMonoMs := last.1, hidden := last.2.hidden } ∈ world.clients
  read : ∀ i request now, world.handlers i = .clocked request now → now ≤ world.clock
  looked : ∀ now, world.watchdog = .clocked now → now ≤ world.clock
  decided : StopsWhenGone world

variable {world : World}

theorem inv_new (clock : Int) : Inv (newWorld clock) where
  listed _ _ none := nomatch none
  read _ _ _ idle := nomatch idle
  looked _ asleep := nomatch asleep
  decided asleep := nomatch asleep

theorem listed_pruned {now clock : Int} {clients : List AppClient} {id : ClientId} {last : Int × Lifecycle} (past : now ≤ clock)
    (listed : { id := some id, seenMonoMs := last.1, hidden := last.2.hidden } ∈ clients) :
    Stale clock last.1 last.2.hidden ∨
      { id := some id, seenMonoMs := last.1, hidden := last.2.hidden } ∈ prune now clients := by
  by_cases stale : Stale now last.1 last.2.hidden
  · exact .inl (stale_later stale past)
  · exact .inr (prune_keeps listed stale)

theorem inv_pass (inv : Inv world) (ms : Nat) : Inv (step world (.pass ms)) := by
  have after : world.clock ≤ world.clock + ms := by omega
  constructor
  case listed =>
    intro id last heard
    rcases inv.listed id last heard with closed | stale | listed
    · exact .inl closed
    · exact .inr (.inl (stale_later stale after))
    · exact .inr (.inr listed)
  case read => exact fun i request now clocked => (inv.read i request now clocked).trans after
  case looked => exact fun now clocked => (inv.looked now clocked).trans after
  case decided =>
    intro stopper id last heard
    rcases inv.decided stopper id last heard with closed | stale
    · exact .inl closed
    · exact .inr (stale_later stale after)

theorem inv_arrive (inv : Inv world) (i : Nat) (request : Lifecycle) : Inv (step world (.arrive i request)) := by
  simp only [step]
  cases handler : world.handlers i with
  | idle =>
    refine ⟨inv.listed, fun i' request' now clocked => ?_, inv.looked, inv.decided⟩
    rcases update_cases clocked with ⟨_, ⟨⟩⟩ | ⟨_, clocked⟩
    · exact Int.le_refl world.clock
    · exact inv.read i' request' now clocked
  | clocked _ _ => exact inv
  | unlocked _ => exact inv

theorem locked_listed (inv : Inv world) {i : Nat} {request : Lifecycle} {now : Int} (past : now ≤ world.clock)
    (ordered : ∀ entry ∈ world.processed, entry.2.clientId = request.clientId → entry.1 ≤ now)
    (room : request.action ≠ .close → HasRoom (prune now world.clients) request.clientId)
    (id : ClientId) (last : Int × Lifecycle) (heard : last ∈ lastHeard (world.processed ++ [(now, request)]) id) :
    last.2.action = .close ∨ Stale world.clock last.1 last.2.hidden ∨
      { id := some id, seenMonoMs := last.1, hidden := last.2.hidden } ∈
        (appLifecycleLocked world i request now).clients := by
  unfold appLifecycleLocked
  dsimp only
  by_cases own : request.clientId = id
  · subst own
    have newest := @last_heard_new world.processed (now, request) ordered
    rw [newest] at heard
    cases heard
    by_cases closes : request.action = .close
    · exact .inl closes
    · rw [if_neg closes]
      exact .inr (listed_pruned past (upsert_listed (room closes)))
  · rw [@last_heard_other world.processed (now, request) id own] at heard
    rcases inv.listed id last heard with closed | stale | listed
    · exact .inl closed
    · exact .inr (.inl stale)
    · right
      rcases listed_pruned past listed with stale | kept
      · exact .inl stale
      · have other : (some id : Option ClientId) ≠ some request.clientId := fun same => own (Option.some.inj same).symm
        apply listed_pruned past
        by_cases closes : request.action = .close
        · rw [if_pos closes]
          exact remove_keeps kept other
        · rw [if_neg closes]
          exact upsert_keeps (room closes) kept rfl other

theorem inv_handle (inv : Inv world) (i : Nat) (good : Good world (.handle i)) : Inv (step world (.handle i)) := by
  simp only [step]
  cases handler : world.handlers i with
  | idle => exact inv
  | unlocked _ => exact inv
  | clocked request now =>
    obtain ⟨ordered, open_⟩ := good request now handler
    have past := inv.read i request now handler
    have listed := fun id last heard =>
      @locked_listed world inv i request now past ordered (fun opens => (open_ opens).1) id last heard
    constructor
    case listed => exact listed
    case read =>
      intro i' request' now' clocked
      rcases update_cases clocked with ⟨_, ⟨⟩⟩ | ⟨_, clocked⟩
      exact inv.read i' request' now' clocked
    case looked => exact inv.looked
    case decided =>
      -- Only a closing request runs between the decision and the stop.
      intro stopper id last heard
      have closes : request.action = .close := by
        by_contra opens
        exact (open_ opens).2 stopper
      change last ∈ lastHeard (world.processed ++ [(now, request)]) id at heard
      by_cases own : request.clientId = id
      · subst own
        have newest := @last_heard_new world.processed (now, request) ordered
        rw [newest] at heard
        cases heard
        exact .inl closes
      · rw [@last_heard_other world.processed (now, request) id own] at heard
        exact inv.decided stopper id last heard

theorem inv_mark (inv : Inv world) (i : Nat) : Inv (step world (.mark i)) := by
  simp only [step]
  cases handler : world.handlers i with
  | idle => exact inv
  | clocked _ _ => exact inv
  | unlocked request =>
    refine ⟨inv.listed, fun i' request' now clocked => ?_, inv.looked, inv.decided⟩
    rcases update_cases clocked with ⟨_, ⟨⟩⟩ | ⟨_, clocked⟩
    exact inv.read i' request' now clocked

theorem inv_look (inv : Inv world) : Inv (step world .look) := by
  simp only [step]
  cases watchdog : world.watchdog with
  | asleep =>
    dsimp only
    split
    · exact ⟨inv.listed, inv.read, fun _ done => (nomatch done), fun done => (nomatch done)⟩
    · refine ⟨inv.listed, inv.read, fun now clocked => ?_, fun clocked => (nomatch clocked)⟩
      cases clocked
      exact Int.le_refl world.clock
  | clocked _ => exact inv
  | stopper => exact inv
  | done => exact inv

theorem inv_decide (inv : Inv world) : Inv (step world .decide) := by
  simp only [step]
  cases watchdog : world.watchdog with
  | asleep => exact inv
  | stopper => exact inv
  | done => exact inv
  | clocked now =>
    have past := inv.looked now watchdog
    have listed : ∀ id, ∀ last ∈ lastHeard world.processed id, last.2.action = .close ∨
        Stale world.clock last.1 last.2.hidden ∨
          { id := some id, seenMonoMs := last.1, hidden := last.2.hidden } ∈ prune now world.clients := by
      intro id last heard
      rcases inv.listed id last heard with closed | stale | listed
      · exact .inl closed
      · exact .inr (.inl stale)
      · exact .inr (listed_pruned past listed)
    unfold watchdogLocked
    dsimp only
    constructor
    case listed => exact listed
    case read => exact inv.read
    case looked =>
      intro now' clocked
      dsimp only at clocked
      split at clocked <;> cases clocked
    case decided =>
      -- Nobody is in the table, so every client heard from has closed or gone stale.
      intro stopper id last heard
      dsimp only at stopper
      split at stopper
      · cases stopper
      · rename_i decided
        have deserted : activeClients (prune now world.clients) = 0 := by
          by_contra active
          exact decided (.inl active)
        rcases listed id last heard with closed | stale | there
        · exact .inl closed
        · exact .inr stale
        · exact nomatch no_active deserted there

theorem inv_stop (inv : Inv world) : Inv (step world .stop) := by
  simp only [step]
  cases watchdog : world.watchdog with
  | stopper => exact ⟨inv.listed, inv.read, fun _ done => (nomatch done), fun done => (nomatch done)⟩
  | asleep => exact inv
  | clocked _ => exact inv
  | done => exact inv

theorem inv_step (world : World) (event : Event) (inv : Inv world) (good : Good world event) : Inv (step world event) := by
  cases event with
  | pass ms => exact inv_pass inv ms
  | arrive i request => exact inv_arrive inv i request
  | handle i => exact inv_handle inv i good
  | mark i => exact inv_mark inv i
  | look => exact inv_look inv
  | decide => exact inv_decide inv
  | stop => exact inv_stop inv
  | shutdown => exact ⟨inv.listed, inv.read, inv.looked, inv.decided⟩

-- Only the watchdog's stop, in the state the decision has led to, can stop the gateway for want of a client.
theorem stops_when_gone (clock : Int) (events : List Event) (good : Along step Good (newWorld clock) events) :
    StopsWhenGone (events.foldl step (newWorld clock)) :=
  (along_invariant inv_step (inv_new clock) events good).decided

section Runs

def clientNamed (i : Fin 17) : ClientId where
  text := [UInt8.ofNat (0x61 + i)]
  valid := by revert i; decide

def served (action : Action) (i : Fin 17) : List Event :=
  [.arrive 0 { action := action, clientId := clientNamed i, hidden := false }, .handle 0, .mark 0]

def opensAndCloses : List Event :=
  served .opening 0 ++ served .close 0 ++ [.pass 2500, .look, .decide, .stop]

theorem opens_and_closes_good : Along step Good (newWorld 0) opensAndCloses := by
  refine ⟨trivial, ?_, trivial, trivial, ?_, trivial, trivial, trivial, trivial, trivial, trivial⟩
  · intro request now clocked
    cases clocked
    decide
  · intro request now clocked
    cases clocked
    decide

theorem stops_when_gone_once : StopsWhenGone (opensAndCloses.foldl step (newWorld 0)) :=
  stops_when_gone 0 opensAndCloses opens_and_closes_good

def crowdedOut : List Event :=
  (List.finRange 17).flatMap (served .opening) ++ ((List.finRange 17).drop 1).flatMap (served .close) ++
    [.pass 2500, .look, .decide]

theorem seventeenth_forgets_first :
    ¬ ∀ (clock : Int) (events : List Event), StopsWhenGone (events.foldl step (newWorld clock)) := by
  intro claim
  have stopper : (crowdedOut.foldl step (newWorld 0)).watchdog = .stopper := by decide +kernel
  have gone := claim 0 crowdedOut stopper (clientNamed 0)
  exact absurd gone (by decide +kernel)

def lateOpen : List Event :=
  served .opening 0 ++ served .close 0 ++ [.pass 2500, .look, .decide] ++ served .opening 1

theorem late_open_ignored : ¬ StopsWhenGone (lateOpen.foldl step (newWorld 0)) := by
  intro claim
  have stopper : (lateOpen.foldl step (newWorld 0)).watchdog = .stopper := by decide
  have gone := claim stopper (clientNamed 1)
  exact absurd gone (by decide)

end Runs

end SamosaChat.App
