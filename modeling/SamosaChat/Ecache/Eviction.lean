import SamosaChat.Ecache.Room

set_option autoImplicit false

namespace SamosaChat.Ecache

open Slots Words Scan Iterate

structure ReleaseFrame (c d : ExpertCache) (s : Nat) (entry : CacheEntry) (event : EcacheReleaseEvent) : Prop where
  config : d.config = c.config
  clock : d.clock = c.clock
  entries : d.entries = write c.entries s entry
  released : d.released = c.released ++ [event]
  floors : ∀ l, (d.layers l).floor = (c.layers l).floor
  payload : d.stats.payloadBytes = c.stats.payloadBytes - event.chargedBytes
  peak : d.stats.peakPayloadBytes = c.stats.peakPayloadBytes

variable {c : ExpertCache}

theorem release_residual_frame (inv : Inv c) (s : Nat) (inside : s < c.config.maxEntries.toNat) (occupied : (c.entries s).occupied)
    (residual : (c.entries s).hasResidual) (reason : EcacheReleaseReason) (countDemotion : Bool) :
    ReleaseFrame c (releaseResidual c s reason countDemotion) s (dropResidual (c.entries s))
        (residualEvent (c.entries s) reason) ∧
      (∀ l, ((releaseResidual c s reason countDemotion).layers l).baseBytes = (c.layers l).baseBytes ∧
        ((releaseResidual c s reason countDemotion).layers l).baseEntries = (c.layers l).baseEntries) ∧
      (releaseResidual c s reason countDemotion).entryCount = c.entryCount := by
  rw [release_residual_eq inv s inside occupied residual]
  refine ⟨⟨rfl, rfl, rfl, rfl, ?_, rfl, by simp⟩, ?_, rfl⟩
  · intro l
    by_cases here : l = (c.entries s).key.layer.toNat
    · simp [here]
    · simp [here]
  · intro l
    by_cases here : l = (c.entries s).key.layer.toNat
    · simp [here]
    · simp [here]

theorem release_bare_base_frame (inv : Inv c) (s : Nat) (inside : s < c.config.maxEntries.toNat) (occupied : (c.entries s).occupied)
    (reason : EcacheReleaseReason) (countEviction : Bool) :
    ReleaseFrame c (releaseBareBase c s reason countEviction) s {} (baseEvent (c.entries s) reason) ∧
      (∀ l, l ≠ (c.entries s).key.layer.toNat → (releaseBareBase c s reason countEviction).layers l = c.layers l) ∧
      (∀ layer, layer = (c.entries s).key.layer.toNat → ((releaseBareBase c s reason countEviction).layers layer).baseBytes =
          (c.layers layer).baseBytes - (c.entries s).baseCharge ∧
        ((releaseBareBase c s reason countEviction).layers layer).baseEntries = (c.layers layer).baseEntries - 1) ∧
      (releaseBareBase c s reason countEviction).entryCount = c.entryCount - 1 := by
  obtain ⟨buckets, tombstones, released, _⟩ :=
    release_bare_base_spec inv s inside occupied reason countEviction
  rw [released]
  refine ⟨⟨rfl, rfl, rfl, rfl, ?_, rfl, by simp⟩, ?_, ?_, rfl⟩
  · intro l
    by_cases here : l = (c.entries s).key.layer.toNat
    · simp [here]
    · simp [here]
  · intro l other
    simp [other]
  · intro layer here
    simp [here]

theorem release_base_bare (c : ExpertCache) (s : Nat) (reason : EcacheReleaseReason) (countEviction : Bool)
    (occupied : (c.entries s).occupied) (bare : (c.entries s).hasResidual = false) :
    releaseBase c s reason countEviction = releaseBareBase c s reason countEviction := by
  simp [releaseBase, occupied, bare]

theorem payload_in_budget (inv : Inv c) : c.stats.payloadBytes.toNat ≤ c.config.budgetBytes.toNat := by
  have peak := inv.usage.peak
  have bound := inv.usage.peakBudget
  omega

theorem note_reclaim_eq (inv : Inv c) : noteReclaim c = c := by
  have exact_ := (u64_not_lt _ _).mpr (payload_in_budget inv)
  simp [noteReclaim, exact_]

inductive Releases (Allowed : ExpertCache → Nat → EcachePlane → Prop) (c : ExpertCache) : ExpertCache → Prop where
  | refl : Releases Allowed c c
  | residual {d : ExpertCache} (s : Nat) (reason : EcacheReleaseReason) (countDemotion : Bool)
      (before : Releases Allowed c d) (allowed : Allowed d s .residual)
      (inside : s < d.config.maxEntries.toNat) (occupied : (d.entries s).occupied)
      (residual : (d.entries s).hasResidual) :
      Releases Allowed c (releaseResidual d s reason countDemotion)
  | base {d : ExpertCache} (s : Nat) (reason : EcacheReleaseReason) (countEviction : Bool)
      (before : Releases Allowed c d) (allowed : Allowed d s .base)
      (inside : s < d.config.maxEntries.toNat) (occupied : (d.entries s).occupied)
      (bare : (d.entries s).hasResidual = false) :
      Releases Allowed c (releaseBareBase d s reason countEviction)

variable {Allowed : ExpertCache → Nat → EcachePlane → Prop}

variable {d : ExpertCache}

theorem releases_inv (inv : Inv c) (run : Releases Allowed c d) : Inv d := by
  induction run with
  | refl => exact inv
  | residual s reason countDemotion _ _ inside occupied residual ih =>
    exact release_residual_inv ih s inside occupied residual reason countDemotion
  | base s reason countEviction _ _ inside occupied bare ih =>
    exact release_bare_base_inv ih s inside occupied bare reason countEviction

theorem releases_trans {e : ExpertCache} (first : Releases Allowed c d) (second : Releases Allowed d e) : Releases Allowed c e := by
  induction second with
  | refl => exact first
  | residual s reason countDemotion _ allowed inside occupied residual ih =>
    exact .residual s reason countDemotion ih allowed inside occupied residual
  | base s reason countEviction _ allowed inside occupied bare ih =>
    exact .base s reason countEviction ih allowed inside occupied bare

theorem releases_weaken {Weaker : ExpertCache → Nat → EcachePlane → Prop} (inv : Inv c) (run : Releases Allowed c d)
    (implied : ∀ d s plane, Inv d → Releases Allowed c d → Allowed d s plane → Weaker d s plane) : Releases Weaker c d := by
  induction run with
  | refl => exact .refl
  | residual s reason countDemotion before allowed inside occupied residual ih =>
    exact .residual s reason countDemotion ih (implied _ s _ (releases_inv inv before) before allowed)
      inside occupied residual
  | base s reason countEviction before allowed inside occupied bare ih =>
    exact .base s reason countEviction ih (implied _ s _ (releases_inv inv before) before allowed)
      inside occupied bare

theorem releases_config (inv : Inv c) (run : Releases Allowed c d) :
    d.config = c.config ∧ d.clock = c.clock ∧ (∀ l, (d.layers l).floor = (c.layers l).floor) ∧
      d.stats.peakPayloadBytes = c.stats.peakPayloadBytes := by
  induction run with
  | refl => exact ⟨rfl, rfl, fun _ => rfl, rfl⟩
  | residual s reason countDemotion before _ inside occupied residual ih =>
    have frame := (release_residual_frame (releases_inv inv before) s inside occupied residual reason
      countDemotion).1
    exact ⟨frame.config.trans ih.1, frame.clock.trans ih.2.1, fun l => (frame.floors l).trans (ih.2.2.1 l),
      frame.peak.trans ih.2.2.2⟩
  | base s reason countEviction before _ inside occupied bare ih =>
    have frame := (release_bare_base_frame (releases_inv inv before) s inside occupied reason countEviction).1
    exact ⟨frame.config.trans ih.1, frame.clock.trans ih.2.1, fun l => (frame.floors l).trans (ih.2.2.1 l),
      frame.peak.trans ih.2.2.2⟩

-- The automatic policy: nothing pinned, and a base only where its layer's floor allows
-- it, never the protected slot, and with no unpinned residual left anywhere.
def AutoAllowed (protectedSlot : Option Nat) (d : ExpertCache) (s : Nat) : EcachePlane → Prop
  | .residual => (d.entries s).pinCount = 0
  | .base => baseFloorAllows d s false = true ∧ some s ≠ protectedSlot ∧ chooseResidual d = none

variable {s : Nat}

theorem floor_allows_live {planning : Bool} (allows : baseFloorAllows c s planning = true) :
    (c.entries s).occupied ∧ (c.entries s).pinCount = 0 ∧ (c.entries s).plannedBaseEvict = false := by
  unfold baseFloorAllows at allows
  dsimp only at allows
  split at allows
  · cases allows
  · rename_i live
    simp only [Bool.or_eq_true, Bool.not_eq_true', decide_eq_true_eq, not_or, Bool.not_eq_false,
      Bool.not_eq_true, ne_eq, Decidable.not_not] at live
    exact ⟨live.1.1, live.2, live.1.2⟩

theorem choose_residual_some (chosen : chooseResidual c = some s) :
    s < c.config.maxEntries.toNat ∧ (c.entries s).occupied ∧ (c.entries s).hasResidual ∧ (c.entries s).pinCount = 0 := by
  obtain ⟨inside, eligible⟩ := best_of_some _ _ _ _ chosen
  simp only [residualEligible, Bool.and_eq_true, beq_iff_eq] at eligible
  exact ⟨inside, eligible.1.1, eligible.1.2, eligible.2⟩

theorem choose_residual_none : chooseResidual c = none ↔ ∀ i < c.config.maxEntries.toNat, residualEligible (c.entries i) = false :=
  best_of_none _ _ _

variable {protectedSlot : Option Nat}

theorem choose_base_some {planning : Bool} (chosen : chooseBase c protectedSlot planning = some s) :
    s < c.config.maxEntries.toNat ∧ some s ≠ protectedSlot ∧ baseFloorAllows c s planning = true := by
  obtain ⟨inside, eligible⟩ := best_of_some _ _ _ _ chosen
  simp only [Bool.and_eq_true, Bool.not_eq_true', beq_eq_false_iff_ne] at eligible
  exact ⟨inside, eligible.1, eligible.2⟩

theorem allowed_base_bare (inside : s < c.config.maxEntries.toNat)
    (cleared : chooseResidual c = none) (allows : baseFloorAllows c s false = true) : (c.entries s).hasResidual = false := by
  obtain ⟨occupied, unpinned, _⟩ := floor_allows_live allows
  have none := choose_residual_none.mp cleared s inside
  simpa [residualEligible, occupied, unpinned] using none

variable {incoming : UInt64} {needEntrySlot : Bool}

theorem make_room_step_releases (inv : Inv c) (step : makeRoomStep incoming needEntrySlot protectedSlot c = some d) :
    (∃ s, chooseResidual c = some s ∧ d = releaseResidual c s .demotion true) ∨
    (∃ s, chooseResidual c = none ∧ chooseBase c protectedSlot false = some s ∧ d = releaseBareBase c s .eviction true) := by
  unfold makeRoomStep at step
  dsimp only at step
  split at step
  · cases step
  · rw [note_reclaim_eq inv] at step
    cases residual : chooseResidual c with
    | some s =>
      rw [residual] at step
      exact .inl ⟨s, rfl, (Option.some.inj step).symm⟩
    | none =>
      rw [residual] at step
      dsimp only at step
      cases base : chooseBase c protectedSlot false with
      | none => simp [base] at step
      | some s =>
        rw [base] at step
        obtain ⟨inside, _, allows⟩ := choose_base_some base
        have bare := allowed_base_bare inside residual allows
        have plain := release_base_bare c s .eviction true (floor_allows_live allows).1 bare
        exact .inr ⟨s, rfl, rfl, (Option.some.inj step).symm.trans plain⟩

theorem make_room_step_allowed (inv : Inv c) (step : makeRoomStep incoming needEntrySlot protectedSlot c = some d) :
    Releases (AutoAllowed protectedSlot) c d := by
  rcases make_room_step_releases inv step with ⟨s, chosen, rfl⟩ | ⟨s, cleared, chosen, rfl⟩
  · obtain ⟨inside, occupied, residual, unpinned⟩ := choose_residual_some chosen
    exact .residual s _ _ .refl unpinned inside occupied residual
  · obtain ⟨inside, spared, allows⟩ := choose_base_some chosen
    exact .base s _ _ .refl ⟨allows, spared, cleared⟩ inside (floor_allows_live allows).1
      (allowed_base_bare inside cleared allows)

def planesOf (c : ExpertCache) : Nat :=
  total c.config.maxEntries.toNat c.entries countOf + total c.config.maxEntries.toNat c.entries residualCountOf

theorem planes_bound (c : ExpertCache) : planesOf c ≤ 2 * c.slotCount := by
  have bases := total_le_count c.config.maxEntries.toNat c.entries countOf
    (fun entry => by unfold countOf; split <;> omega)
  have residuals := total_le_count c.config.maxEntries.toNat c.entries residualCountOf
    (fun entry => by unfold residualCountOf; split <;> omega)
  unfold planesOf ExpertCache.slotCount
  omega

theorem release_residual_fewer (inv : Inv c) (s : Nat) (inside : s < c.config.maxEntries.toNat) (occupied : (c.entries s).occupied)
    (residual : (c.entries s).hasResidual) (reason : EcacheReleaseReason) (countDemotion : Bool) :
    planesOf (releaseResidual c s reason countDemotion) + 1 = planesOf c := by
  have frame := (release_residual_frame inv s inside occupied residual reason countDemotion).1
  have bases := total_write c.config.maxEntries.toNat c.entries countOf s (dropResidual (c.entries s)) inside
  have residuals := total_write c.config.maxEntries.toNat c.entries residualCountOf s
    (dropResidual (c.entries s)) inside
  have gone : residualCountOf (dropResidual (c.entries s)) = 0 := by simp [residualCountOf, dropResidual]
  have held : residualCountOf (c.entries s) = 1 := by simp [residualCountOf, occupied, residual]
  have same : countOf (dropResidual (c.entries s)) = countOf (c.entries s) := rfl
  unfold planesOf
  rw [frame.config, frame.entries]
  omega

theorem release_bare_base_fewer (inv : Inv c) (s : Nat) (inside : s < c.config.maxEntries.toNat) (occupied : (c.entries s).occupied)
    (bare : (c.entries s).hasResidual = false) (reason : EcacheReleaseReason) (countEviction : Bool) :
    planesOf (releaseBareBase c s reason countEviction) + 1 = planesOf c := by
  have frame := (release_bare_base_frame inv s inside occupied reason countEviction).1
  have bases := total_write c.config.maxEntries.toNat c.entries countOf s {} inside
  have residuals := total_write c.config.maxEntries.toNat c.entries residualCountOf s {} inside
  have gone : countOf ({} : CacheEntry) = 0 := rfl
  have none : residualCountOf ({} : CacheEntry) = 0 := rfl
  have held : countOf (c.entries s) = 1 := by simp [countOf, occupied]
  have empty : residualCountOf (c.entries s) = 0 := by simp [residualCountOf, bare]
  unfold planesOf
  rw [frame.config, frame.entries]
  omega

theorem make_room_step_fewer (inv : Inv c)
    (step : makeRoomStep incoming needEntrySlot protectedSlot c = some d) : planesOf d < planesOf c := by
  rcases make_room_step_releases inv step with ⟨s, chosen, rfl⟩ | ⟨s, cleared, chosen, rfl⟩
  · obtain ⟨inside, occupied, residual, _⟩ := choose_residual_some chosen
    have fewer := release_residual_fewer inv s inside occupied residual .demotion true
    omega
  · obtain ⟨inside, _, allows⟩ := choose_base_some chosen
    have fewer := release_bare_base_fewer inv s inside (floor_allows_live allows).1
      (allowed_base_bare inside cleared allows) .eviction true
    omega

theorem make_room_releases (inv : Inv c) (incoming : UInt64) (needEntrySlot : Bool) (protectedSlot : Option Nat) :
    Releases (AutoAllowed protectedSlot) c (makeRoom c incoming needEntrySlot protectedSlot) ∧
      makeRoomStep incoming needEntrySlot protectedSlot (makeRoom c incoming needEntrySlot protectedSlot) = none := by
  have preserved : ∀ s t, Inv s ∧ Releases (AutoAllowed protectedSlot) c s →
      makeRoomStep incoming needEntrySlot protectedSlot s = some t →
      Inv t ∧ Releases (AutoAllowed protectedSlot) c t := by
    intro s t good step
    have run := make_room_step_allowed good.1 step
    exact ⟨releases_inv good.1 run, releases_trans good.2 run⟩
  have ends := iterate_invariant (n := 2 * c.slotCount) preserved ⟨inv, .refl⟩
  have stops := iterate_stopped (n := 2 * c.slotCount) planesOf preserved
    (fun s t good step => make_room_step_fewer good.1 step) ⟨inv, .refl⟩ (planes_bound c)
  rw [makeRoom, note_reclaim_eq ends.1]
  exact ⟨ends.2, stops⟩

end SamosaChat.Ecache
