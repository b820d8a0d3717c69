import SamosaChat.Ecache.Run

set_option autoImplicit false

namespace SamosaChat.Ecache

open Slots Iterate

-- The return in the middle of make_room: room is short and no candidate is left.
def OutOfCandidates (incoming : UInt64) (needEntrySlot : Bool) (protectedSlot : Option Nat)
    (c : ExpertCache) : Prop :=
  ¬ RoomMade incoming needEntrySlot c ∧ chooseResidual c = none ∧ chooseBase c protectedSlot false = none

structure BaseSpared (c d : ExpertCache) (slot : Nat) : Prop where
  occupied : (d.entries slot).occupied
  key : (d.entries slot).key = (c.entries slot).key
  payload : (d.entries slot).basePayload = (c.entries slot).basePayload
  charge : (d.entries slot).baseCharge = (c.entries slot).baseCharge
  unreleased : ∃ events, d.released = c.released ++ events ∧
    ∀ event ∈ events, event.plane = .base → event.key ≠ (c.entries slot).key

structure MakesRoom (c : ExpertCache) (incoming : UInt64) (needEntrySlot : Bool)
    (protectedSlot : Option Nat) : Prop where
  reclaimed : requiredReclaim (makeRoom c incoming needEntrySlot protectedSlot) incoming = 0
  slot : needEntrySlot = true → (makeRoom c incoming needEntrySlot protectedSlot).entryCount <
    (makeRoom c incoming needEntrySlot protectedSlot).config.maxEntries
  candidates : ∀ rounds, ¬ OutOfCandidates incoming needEntrySlot protectedSlot
    (iterate (makeRoomStep incoming needEntrySlot protectedSlot) rounds c)
  spared : ∀ slot, protectedSlot = some slot → slot < c.config.maxEntries.toNat → (c.entries slot).occupied →
    BaseSpared c (makeRoom c incoming needEntrySlot protectedSlot) slot

-- Nothing but the counter of failed admissions moves. The plan totals of a layer are scratch:
-- every admission proof writes them before it reads them.
structure Refused (c : ExpertCache) (outcome : ExpertCache × Reply) : Prop where
  reply : outcome.2 = { status := .errNoSpace }
  same : { outcome.1 with stats := c.stats, layers := c.layers } = c
  stats : outcome.1.stats = { c.stats with failedAdmissions := satInc c.stats.failedAdmissions }
  layers : ∀ l, planless (outcome.1.layers l) = planless (c.layers l)

section Spared

variable {c d : ExpertCache}

variable {slot : Nat}

theorem spared_residual {s : Nat} (live : Inv d) (spared : BaseSpared c d slot)
    (inside : s < d.config.maxEntries.toNat) (occupied : (d.entries s).occupied)
    (residual : (d.entries s).hasResidual) (reason : EcacheReleaseReason) (countDemotion : Bool) :
    BaseSpared c (releaseResidual d s reason countDemotion) slot := by
  have frame := (release_residual_frame live s inside occupied residual reason countDemotion).1
  obtain ⟨events, was, others⟩ := spared.unreleased
  have added : ∃ events, (releaseResidual d s reason countDemotion).released = c.released ++ events ∧
      ∀ event ∈ events, event.plane = .base → event.key ≠ (c.entries slot).key := by
    refine ⟨events ++ [residualEvent (d.entries s) reason], by rw [frame.released, was, List.append_assoc], ?_⟩
    intro event member plane
    rcases List.mem_append.mp member with old | new
    · exact others event old plane
    · rw [List.mem_singleton.mp new] at plane
      cases plane
  by_cases here : slot = s
  · subst here
    refine ⟨?_, ?_, ?_, ?_, added⟩
    · rw [frame.entries, write_same]
      exact spared.occupied
    · rw [frame.entries, write_same]
      exact spared.key
    · rw [frame.entries, write_same]
      exact spared.payload
    · rw [frame.entries, write_same]
      exact spared.charge
  · have kept : (releaseResidual d s reason countDemotion).entries slot = d.entries slot := by
      rw [frame.entries, write_other _ _ _ _ here]
    exact ⟨kept ▸ spared.occupied, kept ▸ spared.key, kept ▸ spared.payload, kept ▸ spared.charge, added⟩

theorem spared_base {s : Nat} (live : Inv d) (spared : BaseSpared c d slot)
    (slotInside : slot < d.config.maxEntries.toNat) (inside : s < d.config.maxEntries.toNat)
    (occupied : (d.entries s).occupied) (other : slot ≠ s) (reason : EcacheReleaseReason) (countEviction : Bool) :
    BaseSpared c (releaseBareBase d s reason countEviction) slot := by
  have frame := (release_bare_base_frame live s inside occupied reason countEviction).1
  obtain ⟨events, was, others⟩ := spared.unreleased
  have kept : (releaseBareBase d s reason countEviction).entries slot = d.entries slot := by
    rw [frame.entries, write_other _ _ _ _ other]
  refine ⟨kept ▸ spared.occupied, kept ▸ spared.key, kept ▸ spared.payload, kept ▸ spared.charge,
    events ++ [baseEvent (d.entries s) reason], by rw [frame.released, was, List.append_assoc], ?_⟩
  intro event member plane
  rcases List.mem_append.mp member with old | new
  · exact others event old plane
  · rw [List.mem_singleton.mp new]
    intro same
    have clash : (d.entries slot).key = (d.entries s).key := spared.key.trans same.symm
    exact other (live.entries.keys slot slotInside s inside spared.occupied occupied clash)

theorem releases_spare (inv : Inv c) (run : Releases (AutoAllowed (some slot)) c d)
    (inside : slot < c.config.maxEntries.toNat) (occupied : (c.entries slot).occupied) : BaseSpared c d slot := by
  induction run with
  | refl => exact ⟨occupied, rfl, rfl, rfl, [], by simp, fun _ none => by simp at none⟩
  | residual s reason countDemotion before _ within live residual ih =>
    exact spared_residual (releases_inv inv before) ih within live residual reason countDemotion
  | base s reason countEviction before allowed within live bare ih =>
    have config := (releases_config inv before).1
    exact spared_base (releases_inv inv before) ih (by rw [config]; exact inside) within live
      (fun same => allowed.2.1 (by rw [same])) reason countEviction

end Spared

variable {c : ExpertCache} {incoming : UInt64} {needEntrySlot : Bool} {protectedSlot : Option Nat}

theorem make_room_rounds_inv (inv : Inv c) (rounds : Nat) :
    Inv (iterate (makeRoomStep incoming needEntrySlot protectedSlot) rounds c) :=
  iterate_invariant (fun _ _ live step => releases_inv live (make_room_step_allowed live step)) inv

theorem out_of_candidates_stops (live : Inv c) (out : OutOfCandidates incoming needEntrySlot protectedSlot c) :
    makeRoomStep incoming needEntrySlot protectedSlot c = none := by
  obtain ⟨short, cleared, stuck⟩ := out
  have open_ := mt (make_room_step_done live incoming needEntrySlot).mpr short
  simp only [makeRoomStep, if_neg open_, cleared, stuck]

theorem room_made_makes_room (inv : Inv c)
    (made : RoomMade incoming needEntrySlot (makeRoom c incoming needEntrySlot protectedSlot)) :
    MakesRoom c incoming needEntrySlot protectedSlot := by
  obtain ⟨run, stopped⟩ := make_room_releases inv incoming needEntrySlot protectedSlot
  have final := releases_inv inv run
  refine ⟨((make_room_step_done final incoming needEntrySlot).mp made).1, ?_, ?_, ?_⟩
  · intro need
    exact UInt32.lt_iff_toNat_lt.mpr (made.2 need)
  · intro rounds out
    have last : makeRoom c incoming needEntrySlot protectedSlot =
        iterate (makeRoomStep incoming needEntrySlot protectedSlot) (2 * c.slotCount) c := by
      rw [makeRoom, note_reclaim_eq (make_room_rounds_inv inv _)]
    have idle := out_of_candidates_stops (make_room_rounds_inv inv rounds) out
    rw [last] at stopped made
    rw [iterate_settled idle stopped] at out
    exact out.1 made
  · intro slot spared inside occupied
    subst spared
    exact releases_spare inv run inside occupied

theorem admitted_makes_room (inv : Inv c) (admitted : (canMakeRoom c incoming needEntrySlot protectedSlot).2 = true) :
    MakesRoom (canMakeRoom c incoming needEntrySlot protectedSlot).1 incoming needEntrySlot protectedSlot := by
  obtain ⟨layers, proof, planned, made⟩ := can_make_room_spec inv incoming needEntrySlot protectedSlot
  rw [proof]
  exact room_made_makes_room (retouches_inv inv (retouches_planless c layers planned)) (made admitted)

theorem fail_admission_refused (inv : Inv c) :
    Refused c (failAdmission (canMakeRoom c incoming needEntrySlot protectedSlot).1, { status := .errNoSpace }) := by
  obtain ⟨layers, proof, planned, _⟩ := can_make_room_spec inv incoming needEntrySlot protectedSlot
  rw [proof]
  exact ⟨rfl, rfl, rfl, planned⟩

theorem admission_known {admission : EcacheAdmission} (known : admission = .demand ∨ admission = .prefetch) :
    ¬ (admission ≠ .demand ∧ admission ≠ .prefetch) := by
  rintro ⟨notDemand, notPrefetch⟩
  exact known.elim notDemand notPrefetch

variable {charge : UInt64} {key : EcacheKey} {request : Admission}

theorem insert_asked (inv : Inv c) (asks : BaseAsks c key request charge) :
    ((canMakeRoom c charge true none).2 = false → ecacheInsertBase c key request =
      (failAdmission (canMakeRoom c charge true none).1, { status := .errNoSpace })) ∧
    ((canMakeRoom c charge true none).2 = true →
      (ecacheInsertBase c key request).2.status = .ok ∨ (ecacheInsertBase c key request).2.status = .errCorrupt) := by
  have valid : cacheValid c = true := by simp [cacheValid, inv.magic]
  obtain ⟨bucket, missing⟩ := asks.missing
  rw [ecacheInsertBase, if_neg (by simp [valid, asks.payload]), if_neg (UInt32.not_le.mpr asks.layer),
    if_neg (admission_known asks.admission), asks.charged]
  dsimp only
  rw [missing]
  dsimp only
  rw [if_neg (by simp [asks.unused])]
  constructor
  · intro refused
    rw [refused]
    rfl
  · intro granted
    rw [if_neg (by simp [granted])]
    split
    · exact .inl rfl
    · exact .inr rfl

theorem insert_refused (inv : Inv c) (asks : BaseAsks c key request charge) (refused : (canMakeRoom c charge true none).2 = false) :
    Refused c (ecacheInsertBase c key request) := by
  rw [(insert_asked inv asks).1 refused]
  exact fail_admission_refused inv

theorem promote_refused (inv : Inv c) {slot : Nat} (asks : ResidualAsks c key request slot charge)
    (refused : (canMakeRoom c charge false (some slot)).2 = false) : Refused c (ecachePromote c key request) := by
  have valid : cacheValid c = true := by simp [cacheValid, inv.magic]
  obtain ⟨bucket, found⟩ := asks.found
  have outcome : ecachePromote c key request =
      (failAdmission (canMakeRoom c charge false (some slot)).1, { status := .errNoSpace }) := by
    rw [ecachePromote, if_neg (by simp [valid, asks.payload]), if_neg (UInt32.not_le.mpr asks.layer),
      if_neg (admission_known asks.admission), found]
    dsimp only
    rw [if_neg (by simp [asks.bare]), if_neg (by simp [asks.unused]), asks.charged]
    dsimp only
    rw [refused]
    rfl
  rw [outcome]
  exact fail_admission_refused inv

end SamosaChat.Ecache
