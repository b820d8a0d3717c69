import SamosaChat.Ecache.Run

set_option autoImplicit false

namespace SamosaChat.Ecache

open Slots

structure AdmittedPlane where
  key : EcacheKey
  plane : EcachePlane
  payload : Handle
  chargedBytes : UInt64
deriving DecidableEq

def releasedPlane (event : EcacheReleaseEvent) : AdmittedPlane :=
  ⟨event.key, event.plane, event.payload, event.chargedBytes⟩

def basePlane (entry : CacheEntry) : AdmittedPlane :=
  ⟨entry.key, .base, entry.basePayload, entry.baseCharge⟩

def residualPlane (entry : CacheEntry) : AdmittedPlane :=
  ⟨entry.key, .residual, entry.residualPayload, entry.residualCharge⟩

def planesHeld (entry : CacheEntry) : Multiset AdmittedPlane :=
  if entry.occupied then
    if entry.hasResidual then {basePlane entry} + {residualPlane entry} else {basePlane entry}
  else 0

def heldPlanes (c : ExpertCache) : Multiset AdmittedPlane :=
  total c.config.maxEntries.toNat c.entries planesHeld

def releasedPlanes (c : ExpertCache) : Multiset AdmittedPlane :=
  (c.released.map releasedPlane : List AdmittedPlane)

def chargeOf (config : EcacheConfig) (logical : UInt64) : UInt64 :=
  match payloadCharge config logical with
  | .ok charge => charge
  | .error _ => 0

def acceptedPlane (c : ExpertCache) : ApiCall → Multiset AdmittedPlane
  | .insertBase key admission =>
    if (ecacheInsertBase c key admission).2.status = .ok then
      {⟨key, .base, admission.payload, chargeOf c.config admission.logicalBytes⟩}
    else 0
  | .promote key admission =>
    if (ecachePromote c key admission).2.status = .ok then
      {⟨key, .residual, admission.payload, chargeOf c.config admission.logicalBytes⟩}
    else 0
  | _ => 0

def acceptedPlanes (c : ExpertCache) : List ApiCall → Multiset AdmittedPlane
  | [] => 0
  | request :: rest => acceptedPlane c request + acceptedPlanes (call c request).1 rest

def ownedPlanes (c : ExpertCache) : Multiset AdmittedPlane :=
  heldPlanes c + releasedPlanes c

theorem released_append (c d : ExpertCache) (event : EcacheReleaseEvent) (logged : d.released = c.released ++ [event]) :
    releasedPlanes d = releasedPlanes c + {releasedPlane event} := by
  simp [releasedPlanes, logged, ← Multiset.coe_add]

variable {c d : ExpertCache}

theorem owned_replace {s : Nat} {entry : CacheEntry} {event : EcacheReleaseEvent}
    (frame : ReleaseFrame c d s entry event) (inside : s < c.config.maxEntries.toNat)
    (moved : planesHeld (c.entries s) = planesHeld entry + {releasedPlane event}) : ownedPlanes d = ownedPlanes c := by
  have swapped := total_write c.config.maxEntries.toNat c.entries planesHeld s entry inside
  have held : heldPlanes d + {releasedPlane event} = heldPlanes c := by
    unfold heldPlanes
    rw [frame.config, frame.entries]
    apply add_right_cancel (b := planesHeld entry)
    rw [moved] at swapped
    rw [← swapped]
    ac_rfl
  rw [ownedPlanes, ownedPlanes, released_append c d event frame.released, ← held]
  ac_rfl

theorem releases_owned {Allowed : ExpertCache → Nat → EcachePlane → Prop} (inv : Inv c)
    (run : Releases Allowed c d) : ownedPlanes d = ownedPlanes c := by
  induction run with
  | refl => rfl
  | residual s reason countDemotion before _ inside occupied residual ih =>
    have frame := (release_residual_frame (releases_inv inv before) s inside occupied residual reason
      countDemotion).1
    refine (owned_replace frame inside ?_).trans ih
    simp only [planesHeld, occupied, residual, if_true, dropResidual, Bool.false_eq_true, if_false]
    rfl
  | base s reason countEviction before _ inside occupied bare ih =>
    have frame := (release_bare_base_frame (releases_inv inv before) s inside occupied reason countEviction).1
    refine (owned_replace frame inside ?_).trans ih
    simp only [planesHeld, occupied, bare, if_true, Bool.false_eq_true, if_false, zero_add]
    rfl

theorem retouches_owned (touched : Retouches c d) : ownedPlanes d = ownedPlanes c := by
  obtain ⟨entries, clock, stats, layers, rfl, same, _, _⟩ := touched
  have held : ∀ i, planesHeld (entries i) = planesHeld (c.entries i) := by
    intro i
    have touch := same i
    simp only [planesHeld, basePlane, residualPlane, touch.occupied, touch.hasResidual, touch.key,
      touch.basePayload, touch.baseCharge, touch.residualPayload, touch.residualCharge]
  have total_ : total c.config.maxEntries.toNat entries planesHeld =
      total c.config.maxEntries.toNat c.entries planesHeld :=
    total_congr _ _ _ _ (fun i _ => held i)
  simp only [ownedPlanes, heldPlanes, releasedPlanes, total_]

theorem retouches_released (touched : Retouches c d) : d.released = c.released := by
  obtain ⟨entries, clock, stats, layers, rfl, _⟩ := touched
  rfl

theorem retouches_config (touched : Retouches c d) : d.config = c.config := by
  obtain ⟨entries, clock, stats, layers, rfl, _⟩ := touched
  rfl

theorem owned_admit (s : Nat) (entry : CacheEntry) {plane : AdmittedPlane}
    (config : d.config = c.config) (entries : d.entries = write c.entries s entry)
    (released : d.released = c.released) (inside : s < c.config.maxEntries.toNat)
    (gained : planesHeld entry = planesHeld (c.entries s) + {plane}) : ownedPlanes d = ownedPlanes c + {plane} := by
  have swapped := total_write c.config.maxEntries.toNat c.entries planesHeld s entry inside
  have held : heldPlanes d = heldPlanes c + {plane} := by
    unfold heldPlanes
    rw [config, entries]
    apply add_right_cancel (b := planesHeld (c.entries s))
    rw [swapped, gained]
    ac_rfl
  rw [ownedPlanes, ownedPlanes, held, releasedPlanes, released, releasedPlanes]
  ac_rfl

theorem admit_base_owned {slot bucket : Nat} {key : EcacheKey} {request : Admission}
    {charge : UInt64} (admissible : Admissible c slot bucket key request charge) :
    ownedPlanes (admitBase c slot bucket key request charge) = ownedPlanes c + {⟨key, .base, request.payload, charge⟩} := by
  have ticks := (next_clock_spec c).1
  have ready := admissible_retouched admissible ticks
  rw [← retouches_owned ticks]
  refine owned_admit slot (newEntry key request charge (nextClock c).2) rfl rfl rfl ready.inside ?_
  simp [planesHeld, ready.vacant, newEntry, basePlane]

theorem admit_residual_owned {slot : Nat} {key : EcacheKey} {request : Admission}
    {charge : UInt64} (promotable : Promotable c slot key request charge) :
    ownedPlanes (admitResidual c slot key request charge) = ownedPlanes c + {⟨key, .residual, request.payload, charge⟩} := by
  refine owned_admit slot (withResidual (c.entries slot) request charge) rfl rfl rfl
    promotable.inside ?_
  simp [planesHeld, promotable.occupied, promotable.bare, withResidual, basePlane, residualPlane, promotable.named]

theorem charge_of_ok {config : EcacheConfig} {logical charge : UInt64}
    (charged : payloadCharge config logical = .ok charge) : chargeOf config logical = charge := by
  simp [chargeOf, charged]

theorem call_owned (inv : Inv c) (request : ApiCall) :
    ownedPlanes (call c request).1 = ownedPlanes c + acceptedPlane c request := by
  cases request with
  | get key requirement out =>
    have same := retouches_owned (get_retouches c key requirement out)
    simpa [acceptedPlane, call] using same
  | peek key out => simp [acceptedPlane, call, peek_same]
  | pin key =>
    have same := retouches_owned (repins_retouches (pin_repins c key))
    simpa [acceptedPlane, call] using same
  | unpin key =>
    have same := retouches_owned (repins_retouches (unpin_repins c key))
    simpa [acceptedPlane, call] using same
  | insertBase key admission =>
    rcases insert_outcome inv key admission with
      ⟨failed, _, ⟨touched, _⟩⟩ | ⟨b, d, slot, bucket, charge, ⟨touched, _, _⟩, _, _, run, ok, _, eq⟩
    · simp [acceptedPlane, call, failed, retouches_owned touched]
    · have live := retouches_inv inv touched
      have config := (releases_config live run).1.trans (retouches_config touched)
      have charged := ok.charged
      rw [config] at charged
      simp only [acceptedPlane, call, eq, if_true, charge_of_ok charged]
      rw [admit_base_owned ok, releases_owned live run, retouches_owned touched]
  | promote key admission =>
    rcases promote_outcome inv key admission with
      ⟨failed, ⟨touched, _⟩⟩ | ⟨b, d, slot, charge, ⟨touched, _, _⟩, run, ok, _, eq⟩
    · simp [acceptedPlane, call, failed, retouches_owned touched]
    · have live := retouches_inv inv touched
      have config := (releases_config live run).1.trans (retouches_config touched)
      have charged := ok.charged
      rw [config] at charged
      simp only [acceptedPlane, call, eq, if_true, charge_of_ok charged]
      rw [admit_residual_owned ok, releases_owned live run, retouches_owned touched]
  | remove key =>
    have kept : ownedPlanes (ecacheRemove c key).1 = ownedPlanes c := by
      rcases remove_cases inv key with ⟨_, same⟩ | ⟨run, _⟩
      · rw [same]
      · exact releases_owned inv run
    simpa [acceptedPlane, call] using kept
  | applyPressure pressure target out =>
    have kept : ownedPlanes (ecacheApplyPressure c pressure target out).1 = ownedPlanes c := by
      rcases pressure_cases inv pressure target out with
        ⟨_, same, _⟩ | ⟨_, b, mid, d, reason, touched, _, residuals, _, bases, _, _, eq⟩
      · rw [same]
      · have live := retouches_inv inv touched
        rw [eq, releases_owned (releases_inv live residuals) bases, releases_owned live residuals, retouches_owned touched]
    simpa [acceptedPlane, call] using kept

theorem run_owned (inv : Inv c) (calls : List ApiCall) : ownedPlanes (run c calls) = ownedPlanes c + acceptedPlanes c calls := by
  induction calls generalizing c with
  | nil => simp [run, acceptedPlanes]
  | cons request rest ih =>
    have step := ih (call_inv inv request)
    simp only [run, List.foldl_cons, acceptedPlanes] at step ⊢
    rw [step, call_owned inv request, add_assoc]

theorem emptied_holds_none (emptied : ∀ i < c.config.maxEntries.toNat, (c.entries i).occupied = false) : heldPlanes c = 0 := by
  unfold heldPlanes total
  apply Finset.sum_eq_zero
  intro i member
  simp [planesHeld, emptied i (Finset.mem_range.mp member)]

def ReleasesUnpinned (c d : ExpertCache) : Prop :=
  ∃ events, d.released = c.released ++ events ∧
    ∀ event ∈ events, ReleasedFrom (fun entry => entry.pinCount = 0) c event

theorem releases_unpinned {Allowed : ExpertCache → Nat → EcachePlane → Prop} {b : ExpertCache} (inv : Inv b)
    (same : b.entries = c.entries) (config : b.config = c.config) (log : b.released = c.released)
    (run : Releases Allowed b d) (unpinned : ∀ d s plane, Allowed d s plane → Unpinned d s plane) : ReleasesUnpinned c d := by
  obtain ⟨events, logged, from_⟩ := releases_events (fun entry => entry.pinCount = 0) inv run
    (fun d s plane _ allowed => unpinned d s plane allowed)
    (fun old new shrunk live free => by
      rw [← (shrunk_occupied shrunk live).2.2.2]
      exact free)
  refine ⟨events, log ▸ logged, fun event member => ?_⟩
  have found := from_ event member
  unfold ReleasedFrom at found ⊢
  rwa [same, config] at found

theorem nothing_released (c d : ExpertCache) (same : d.released = c.released) : ReleasesUnpinned c d :=
  ⟨[], by simp [same], fun _ none => absurd none (by simp)⟩

theorem call_releases_unpinned (inv : Inv c) (request : ApiCall) : ReleasesUnpinned c (call c request).1 := by
  cases request with
  | get key requirement out => exact nothing_released _ _ (retouches_released (get_retouches c key requirement out))
  | peek key out => exact nothing_released _ _ (by rw [call, peek_same])
  | pin key => exact nothing_released _ _ (retouches_released (repins_retouches (pin_repins c key)))
  | unpin key => exact nothing_released _ _ (retouches_released (repins_retouches (unpin_repins c key)))
  | insertBase key admission =>
    rcases insert_outcome inv key admission with
      ⟨_, _, ⟨touched, _⟩⟩ | ⟨b, d, slot, bucket, charge, ⟨touched, same, _⟩, _, _, run, _, _, eq⟩
    · exact nothing_released _ _ (retouches_released touched)
    · have ends := releases_unpinned (retouches_inv inv touched) same (retouches_config touched)
        (retouches_released touched) run (fun _ _ _ => auto_unpinned)
      have log := retouches_released (next_clock_spec d).1
      simp only [call, eq]
      unfold ReleasesUnpinned at ends ⊢
      rwa [← log] at ends
  | promote key admission =>
    rcases promote_outcome inv key admission with
      ⟨_, ⟨touched, _⟩⟩ | ⟨b, d, slot, charge, ⟨touched, same, _⟩, run, _, _, eq⟩
    · exact nothing_released _ _ (retouches_released touched)
    · have ends : ReleasesUnpinned c d := releases_unpinned (retouches_inv inv touched) same
        (retouches_config touched) (retouches_released touched) run (fun _ _ _ => auto_unpinned)
      simp only [call, eq]
      exact ends
  | remove key =>
    rcases remove_cases inv key with ⟨_, same⟩ | ⟨run, _⟩
    · exact nothing_released _ _ (by rw [call, same])
    · exact releases_unpinned inv rfl rfl rfl run (fun _ _ _ free => free)
  | applyPressure pressure target out =>
    rcases pressure_cases inv pressure target out with
      ⟨_, same, _⟩ | ⟨_, b, mid, d, reason, touched, same, residuals, _, bases, _, _, eq⟩
    · exact nothing_released _ _ (by rw [call, same])
    · have live := retouches_inv inv touched
      have first : Releases Unpinned b mid := releases_weaken live residuals (fun _ _ _ _ _ allowed => allowed.2)
      have second : Releases Unpinned mid d := releases_weaken (releases_inv live residuals) bases
        (fun _ _ _ _ _ allowed => (floor_allows_live allowed.2.1).2.1)
      simp only [call, eq]
      exact releases_unpinned live same (retouches_config touched) (retouches_released touched)
        (releases_trans first second) (fun _ _ _ free => free)

theorem refused_releases_none (inv : Inv c) (key : EcacheKey) (admission : Admission) :
    ((ecacheInsertBase c key admission).2.status ≠ .ok → (ecacheInsertBase c key admission).1.released = c.released) ∧
    ((ecachePromote c key admission).2.status ≠ .ok → (ecachePromote c key admission).1.released = c.released) := by
  refine ⟨fun refused => ?_, fun refused => ?_⟩
  · rcases insert_outcome inv key admission with ⟨_, _, ⟨touched, _⟩⟩ | ⟨b, d, slot, bucket, charge, _, _, _, _, _, _, eq⟩
    · exact retouches_released touched
    · rw [eq] at refused
      exact absurd rfl refused
  · rcases promote_outcome inv key admission with ⟨_, ⟨touched, _⟩⟩ | ⟨b, d, slot, charge, _, _, _, _, eq⟩
    · exact retouches_released touched
    · rw [eq] at refused
      exact absurd rfl refused

-- Payload ownership over a whole life of the cache: a successful destroy has released
-- exactly the planes accepted, under their keys and charges; a refused admission releases
-- nothing; nothing pinned is ever released.
theorem ownership_is_linear (abi : Abi) (args : InitArgs) (c : ExpertCache)
    (accepted : ecacheInit abi args = .ok c) (calls : List ApiCall) :
    (∀ d, ecacheDestroy (run c calls) = (d, .ok) →
      releasedPlanes d = acceptedPlanes c calls ∧ ReleasesUnpinned (run c calls) d) ∧
    ((ecacheDestroy (run c calls)).2 ≠ .ok → (ecacheDestroy (run c calls)).1 = run c calls) ∧
    (∀ request, ReleasesUnpinned (run c calls) (call (run c calls) request).1) ∧
    (∀ key admission,
      ((ecacheInsertBase (run c calls) key admission).2.status ≠ .ok →
        (ecacheInsertBase (run c calls) key admission).1.released = (run c calls).released) ∧
      ((ecachePromote (run c calls) key admission).2.status ≠ .ok →
        (ecachePromote (run c calls) key admission).1.released = (run c calls).released)) := by
  obtain ⟨start, unreleased, empty⟩ := init_inv accepted
  have inv := run_inv start calls
  have owned := run_owned start calls
  have none : ownedPlanes c = 0 := by
    simp [ownedPlanes, emptied_holds_none (fun i _ => empty i), releasedPlanes, unreleased]
  rw [none, zero_add] at owned
  refine ⟨fun d destroyed => ?_, fun refused => ?_, call_releases_unpinned inv, refused_releases_none inv⟩
  · rcases destroy_cases inv with ⟨held, _⟩ | ⟨e, ends, released, emptied⟩
    · rw [held] at destroyed
      cases destroyed
    · rw [ends] at destroyed
      cases destroyed
      have config := (releases_config inv released).1
      have unpinned : ReleasesUnpinned (run c calls) e :=
        releases_unpinned inv rfl rfl rfl released (fun _ _ _ free => free)
      refine ⟨?_, unpinned⟩
      have final := releases_owned inv released
      have gone : heldPlanes e = 0 := emptied_holds_none (by rw [config]; exact emptied)
      rw [ownedPlanes, gone, zero_add, owned] at final
      exact final
  · rcases destroy_cases inv with ⟨held, _⟩ | ⟨e, ends, _⟩
    · rw [held]
    · rw [ends] at refused
      exact absurd rfl refused

theorem ownership_is_linear_small :
    releasedPlanes (ecacheDestroy (run smallCache [.insertBase smallKey (demandOf 1)])).1 =
      acceptedPlanes smallCache [.insertBase smallKey (demandOf 1)] :=
  ((ownership_is_linear lp64 smallArgs smallCache small_init [.insertBase smallKey (demandOf 1)]).1 _ rfl).1

end SamosaChat.Ecache
