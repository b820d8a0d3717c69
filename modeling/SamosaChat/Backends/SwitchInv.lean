import SamosaChat.Backends.Switch

set_option autoImplicit false

namespace SamosaChat.Backends

open Utf8 Durable Setup Function

def last (initial : Backend) (commits : List Commit) : Backend :=
  (commits.getLast?.map Commit.backend).getD initial

def Commit.sound (commit : Commit) : Bool :=
  commit.ready && commit.unchanged

def Failure.rolledBack (failure : Failure) : Prop :=
  failure.stopping = false → failure.fileAfter = failure.fileBefore ∧ failure.backendAfter = failure.previous

def Response.harmless (response : Response) : Prop :=
  response.stopping = false → 400 ≤ response.status →
    response.profileChanged = false ∧ response.fileChanged = false ∧ response.backendChanged = false

structure Settled (initial : Backend) (world : World) : Prop where
  single : ∀ i j, (world.requests i).phase.switches = true → (world.requests j).phase.switches = true → i = j
  named : world.stopping = false → (∀ i, (world.requests i).phase.switches = false) →
    selected world.selectionFile = some world.backend ∧ world.backend = last initial world.commits
  committed : ∀ commit ∈ world.commits, commit.sound = true
  rolledBack : ∀ failure ∈ world.failures, failure.rolledBack
  refused : ∀ response ∈ world.responses, response.harmless

def kept (world : World) (i : Nat) : Bool :=
  !(world.requests i).profileChanged

-- A request is refused after it has stored its model only where the profile named that model before,
-- a restored process is the one that ran, and a watchdog reads its job.
def Good (world : World) : Event → Prop
  | .check i =>
    match (world.requests i).phase with
    | .stored _ => world.stopping = false → world.generating = true → kept world i = true
    | _ => True
  | .takeDirect i =>
    match (world.requests i).phase with
    | .direct => world.stopping = false → world.active.isSome = true → kept world i = true
    | _ => True
  | .take i generates saves =>
    match (world.requests i).phase with
    | .waiting _ =>
      world.stopping = false → world.active.isSome = true ∨ generates = false ∨ saves = false → kept world i = true
    | _ => True
  | .undoDirect i starts =>
    match (world.requests i).phase with
    | .undoing previous =>
      world.stopping = false → kept world i = true ∧ restored world previous starts = (world.requests i).ran
    | _ => True
  | .restore i starts =>
    match (world.requests i).phase with
    | .failing job _ true =>
      world.stopping = false →
        kept world i = true ∧ restored world job.previousBackend starts = (world.requests i).ran
    | _ => True
  | .load i reads =>
    match (world.requests i).phase with
    | .loading => reads = true
    | _ => True
  | _ => True

section Invariant

structure Owned (requests : Nat → Request) (locked active : Option Nat) : Prop where
  locks : ∀ i, (requests i).phase.locks = true ↔ locked = some i
  jobs : ∀ i, (requests i).phase.jobs = true ↔ active = some i
  apart : locked = none ∨ active = none

def Request.fresh (request : Request) : Prop :=
  request.fileChanged = false ∧ request.backendChanged = false

def Noted (stopping : Bool) (job : Option SelectionJob) (request : Request) : Prop :=
  match request.phase with
  | .outside => request.profileChanged = false ∧ request.fresh
  | .accepted name _ | .loaded name _ _ | .stored name | .admitted name =>
    request.fresh ∧ (name = .molmo2 → request.ready = true)
  | .direct | .checking _ => request.fresh ∧ request.ready = true
  | .writing _ | .committing _ => request.fresh ∧ request.ready = true ∧ request.unchanged = true
  | .starting made => request.fresh ∧ job = some made
  | .loading => request.fresh ∧ job.isSome = true
  | .failed _ _ true =>
    stopping = false →
      request.profileChanged = false ∧ request.fileChanged = false ∧ request.backendChanged = false
  | .failed _ _ false | .committed | .gone => True
  | _ => request.fresh

structure Begun (now : Backend) (file before : Option Bytes) (previous : Backend) : Prop where
  last : previous = now
  same : file = before
  names : selected file = some previous

def Held (now backend : Backend) (file : Option Bytes) (job : Option SelectionJob) (request : Request) : Prop :=
  match request.phase with
  | .writing previous => Begun now file request.before previous ∧ backend = .molmo2
  | .undoing previous => Begun now file request.before previous
  | .starting made => job = some made ∧ Begun now file request.before made.previousBackend
  | .failing job _ _ => Begun now file request.before job.previousBackend
  | .loading => ∃ made, job = some made ∧ Begun now file request.before made.previousBackend ∧ backend = made.requestedBackend
  | .polling job | .checking job | .committing job =>
    Begun now file request.before job.previousBackend ∧ backend = job.requestedBackend
  | .failed job _ _ => Begun now file request.before job.previousBackend ∧ backend = job.previousBackend
  | .committed => selected file = some backend ∧ backend = now
  | _ => True

structure Inv (initial : Backend) (world : World) : Prop where
  owned : Owned world.requests world.locked world.active
  noted : ∀ i, Noted world.stopping (world.jobs i) (world.requests i)
  held : world.stopping = false → ∀ i, (world.requests i).phase.switches = true →
    Held (last initial world.commits) world.backend world.selectionFile (world.jobs i) (world.requests i)
  rest : world.stopping = false → world.locked = none → world.active = none →
    selected world.selectionFile = some world.backend ∧ world.backend = last initial world.commits
  committed : ∀ commit ∈ world.commits, commit.sound = true
  rolledBack : ∀ failure ∈ world.failures, failure.rolledBack
  refused : ∀ response ∈ world.responses, response.harmless

end Invariant

section Owners

variable {requests : Nat → Request} {locked active : Option Nat} {i j : Nat} {request : Request}

theorem one_switch (owned : Owned requests locked active) (first : (requests i).phase.switches = true)
    (second : (requests j).phase.switches = true) : i = j := by
  rw [Phase.switches, Bool.or_eq_true, owned.locks, owned.jobs] at first second
  cases owned.apart with
  | inl free =>
    rw [free] at first second
    have here := first.resolve_left nofun
    rw [second.resolve_left nofun] at here
    cases here
    rfl
  | inr free =>
    rw [free] at first second
    have here := first.resolve_right nofun
    rw [second.resolve_right nofun] at here
    cases here
    rfl

theorem nobody_switches (owned : Owned requests none none) (i : Nat) : (requests i).phase.switches = false := by
  rw [Phase.switches, Bool.or_eq_false_iff]
  constructor
  · exact Bool.eq_false_iff.mpr fun locks => nomatch (owned.locks i).mp locks
  · exact Bool.eq_false_iff.mpr fun jobs => nomatch (owned.jobs i).mp jobs

theorem idle_free (owned : Owned requests locked active) (idle : ∀ i, (requests i).phase.switches = false) :
    locked = none ∧ active = none := by
  have free : ∀ i, ¬((requests i).phase.locks = true ∨ (requests i).phase.jobs = true) := by
    intro i
    rw [← Bool.or_eq_true]
    exact Bool.eq_false_iff.mp (idle i)
  constructor
  · cases held : locked with
    | none => rfl
    | some i => exact absurd (.inl ((owned.locks i).mpr held)) (free i)
  · cases held : active with
    | none => rfl
    | some i => exact absurd (.inr ((owned.jobs i).mpr held)) (free i)

theorem owned_same (owned : Owned requests locked active) (locks : request.phase.locks = (requests i).phase.locks)
    (jobs : request.phase.jobs = (requests i).phase.jobs) : Owned (update requests i request) locked active where
  locks := by
    intro j
    by_cases same : j = i
    · subst same
      rw [update_self, locks]
      exact owned.locks j
    · rw [update_of_ne same]
      exact owned.locks j
  jobs := by
    intro j
    by_cases same : j = i
    · subst same
      rw [update_self, jobs]
      exact owned.jobs j
    · rw [update_of_ne same]
      exact owned.jobs j
  apart := owned.apart

theorem owned_locked (owned : Owned requests none none) (locks : request.phase.locks = true)
    (jobs : request.phase.jobs = false) : Owned (update requests i request) (some i) none where
  locks := by
    intro j
    by_cases same : j = i
    · subst same
      rw [update_self]
      exact ⟨fun _ => rfl, fun _ => locks⟩
    · rw [update_of_ne same, owned.locks]
      exact ⟨nofun, fun other => absurd (Option.some.inj other).symm same⟩
  jobs := by
    intro j
    by_cases same : j = i
    · subst same
      rw [update_self, jobs]
      exact ⟨nofun, nofun⟩
    · rw [update_of_ne same]
      exact owned.jobs j
  apart := .inr rfl

theorem owned_active (owned : Owned requests none none) (locks : request.phase.locks = false)
    (jobs : request.phase.jobs = true) : Owned (update requests i request) none (some i) where
  locks := by
    intro j
    by_cases same : j = i
    · subst same
      rw [update_self, locks]
      exact ⟨nofun, nofun⟩
    · rw [update_of_ne same]
      exact owned.locks j
  jobs := by
    intro j
    by_cases same : j = i
    · subst same
      rw [update_self]
      exact ⟨fun _ => rfl, fun _ => jobs⟩
    · rw [update_of_ne same, owned.jobs]
      exact ⟨nofun, fun other => absurd (Option.some.inj other).symm same⟩
  apart := .inl rfl

theorem owned_free (owned : Owned requests locked active) (was : (requests i).phase.switches = true)
    (now : request.phase.switches = false) : Owned (update requests i request) none none := by
  rw [Phase.switches, Bool.or_eq_false_iff] at now
  have others : ∀ j, j ≠ i → (requests j).phase.switches = false := fun j different =>
    Bool.eq_false_iff.mpr fun switches => different (one_switch owned switches was)
  constructor
  case locks =>
    intro j
    by_cases same : j = i
    · subst same
      rw [update_self, now.1]
      exact ⟨nofun, nofun⟩
    · have other := others j same
      rw [Phase.switches, Bool.or_eq_false_iff] at other
      rw [update_of_ne same, other.1]
      exact ⟨nofun, nofun⟩
  case jobs =>
    intro j
    by_cases same : j = i
    · subst same
      rw [update_self, now.2]
      exact ⟨nofun, nofun⟩
    · have other := others j same
      rw [Phase.switches, Bool.or_eq_false_iff] at other
      rw [update_of_ne same, other.2]
      exact ⟨nofun, nofun⟩
  case apart => exact .inl rfl

end Owners

section Turns

variable {initial : Backend} {world after : World} {i : Nat} {request : Request}

theorem noted_update (inv : Inv initial world) {jobs : Nat → Option SelectionJob}
    (others : ∀ j, j ≠ i → jobs j = world.jobs j) (own : Noted world.stopping (jobs i) request) (j : Nat) :
    Noted world.stopping (jobs j) (update world.requests i request j) := by
  by_cases same : j = i
  · subst same
    rw [update_self]
    exact own
  · rw [update_of_ne same, others j same]
    exact inv.noted j

theorem harmless_append {responses : List Response} {response : Response}
    (refused : ∀ response ∈ responses, response.harmless) (own : response.harmless) :
    ∀ other ∈ responses ++ [response], other.harmless := by
  intro other member
  rw [List.mem_append, List.mem_singleton] at member
  cases member with
  | inl before => exact refused other before
  | inr same =>
    subst same
    exact own

theorem inv_quiet (inv : Inv initial world) (was : (world.requests i).phase.switches = false)
    (now : request.phase.switches = false) (noted : Noted world.stopping (world.jobs i) request) {profile : Option Bytes}
    {responses : List Response} (refused : ∀ response ∈ responses, response.harmless) :
    Inv initial
      { world with
        requests := update world.requests i request
        profile := profile
        responses := responses } where
  owned := by
    rw [Phase.switches, Bool.or_eq_false_iff] at was now
    exact owned_same inv.owned (now.1.trans was.1.symm) (now.2.trans was.2.symm)
  noted := noted_update inv (fun _ _ => rfl) noted
  held := by
    intro going j switches
    change (update world.requests i request j).phase.switches = true at switches
    change Held _ _ _ _ (update world.requests i request j)
    by_cases same : j = i
    · subst same
      rw [update_self, now] at switches
      cases switches
    · rw [update_of_ne same] at switches ⊢
      exact inv.held going j switches
  rest := inv.rest
  committed := inv.committed
  rolledBack := inv.rolledBack
  refused := refused

theorem inv_switching (inv : Inv initial world) (requests : after.requests = update world.requests i request)
    (owned : Owned after.requests after.locked after.active) (now : request.phase.switches = true)
    (jobs : ∀ j, j ≠ i → after.jobs j = world.jobs j) (stopping : after.stopping = world.stopping)
    (noted : Noted world.stopping (after.jobs i) request) (held : world.stopping = false →
      Held (last initial after.commits) after.backend after.selectionFile (after.jobs i) request)
    (committed : ∀ commit ∈ after.commits, commit.sound = true) (failures : after.failures = world.failures)
    (refused : ∀ response ∈ after.responses, response.harmless) : Inv initial after := by
  have own : (after.requests i).phase.switches = true := by
    rw [requests, update_self]
    exact now
  constructor
  case owned => exact owned
  case noted =>
    rw [requests, stopping]
    exact noted_update inv jobs noted
  case held =>
    intro going j switches
    rw [stopping] at going
    rw [one_switch owned switches own, requests, update_self]
    exact held going
  case rest =>
    intro _ free idle
    rw [free, idle] at owned
    rw [nobody_switches owned i] at own
    cases own
  case committed => exact committed
  case rolledBack =>
    rw [failures]
    exact inv.rolledBack
  case refused => exact refused

theorem inv_end (inv : Inv initial world) (was : (world.requests i).phase.switches = true)
    (requests : after.requests = update world.requests i request) (now : request.phase = .gone)
    (locked : after.locked = none) (active : after.active = none) (jobs : after.jobs = world.jobs)
    (stopping : after.stopping = world.stopping) (rest : world.stopping = false →
      selected after.selectionFile = some after.backend ∧ after.backend = last initial after.commits)
    (committed : ∀ commit ∈ after.commits, commit.sound = true) (rolledBack : ∀ failure ∈ after.failures, failure.rolledBack)
    (refused : ∀ response ∈ after.responses, response.harmless) : Inv initial after := by
  have owned : Owned after.requests none none := by
    rw [requests]
    exact owned_free inv.owned was (by rw [now]; rfl)
  constructor
  case owned =>
    rw [locked, active]
    exact owned
  case noted =>
    rw [requests, stopping, jobs]
    exact noted_update inv (fun _ _ => rfl) (by rw [Noted, now]; trivial)
  case held =>
    intro _ j switches
    rw [nobody_switches owned j] at switches
    cases switches
  case rest =>
    intro going _ _
    rw [stopping] at going
    exact rest going
  case committed => exact committed
  case rolledBack => exact rolledBack
  case refused => exact refused

end Turns

end SamosaChat.Backends
