import SamosaChat.Ecache.Eviction

set_option autoImplicit false

namespace SamosaChat.Ecache

open Slots Words Scan Iterate

def eligibleOf (entry : CacheEntry) : Nat :=
  if residualEligible entry then entry.residualCharge.toNat else 0

theorem eligible_le_residual (entry : CacheEntry) : eligibleOf entry ≤ residualOf entry := by
  unfold eligibleOf residualOf residualEligible
  by_cases live : entry.occupied && entry.hasResidual
  · by_cases free : entry.pinCount == 0 <;> simp [live, free]
  · simp [live]

variable {c : ExpertCache}

theorem eligible_in_payload (inv : Inv c) (upto : Nat) (bound : upto ≤ c.config.maxEntries.toNat) :
    total upto c.entries eligibleOf ≤ c.stats.residualBytes.toNat := by
  calc total upto c.entries eligibleOf ≤ total upto c.entries residualOf :=
        total_mono upto c.entries _ _ eligible_le_residual
    _ ≤ total c.config.maxEntries.toNat c.entries residualOf :=
        total_prefix _ _ _ _ bound
    _ = c.stats.residualBytes.toNat := inv.usage.residual.symm

theorem eligible_prefix (inv : Inv c) (upto : Nat) (bound : upto ≤ c.config.maxEntries.toNat) :
    ∃ bytes : UInt64, (List.range upto).foldlM (addEligible c) 0 = some bytes ∧
      bytes.toNat = total upto c.entries eligibleOf := by
  induction upto with
  | zero => exact ⟨0, rfl, rfl⟩
  | succ upto ih =>
    obtain ⟨bytes, reached, count⟩ := ih (by omega)
    have limit := eligible_in_payload inv (upto + 1) bound
    have room := c.stats.residualBytes.toNat_lt
    rw [total_succ] at limit
    rw [List.range_succ, List.foldlM_append, reached]
    simp only [List.foldlM_cons, List.foldlM_nil, Option.bind_eq_bind, Option.bind_some, addEligible]
    by_cases fits : residualEligible (c.entries upto)
    · simp only [eligibleOf, fits, if_true] at limit
      have whole : (UInt64.ofNat (2 ^ 64 - 1)).toNat = 2 ^ 64 - 1 := by decide
      have small : bytes.toNat ≤ (UInt64.ofNat (2 ^ 64 - 1)).toNat := by rw [whole]; omega
      have enough : ¬ UInt64.ofNat (2 ^ 64 - 1) - bytes < (c.entries upto).residualCharge := by
        rw [UInt64.lt_iff_toNat_lt, u64_sub _ _ small, whole]
        omega
      refine ⟨bytes + (c.entries upto).residualCharge, by rw [if_pos fits, if_neg enough]; rfl, ?_⟩
      rw [u64_add _ _ (by omega), total_succ, count]
      simp [eligibleOf, fits]
    · refine ⟨bytes, by simp [fits], ?_⟩
      rw [total_succ, count]
      simp [eligibleOf, fits]

theorem eligible_bytes_eq (inv : Inv c) :
    (eligibleResidualBytes c).toNat = total c.config.maxEntries.toNat c.entries eligibleOf := by
  obtain ⟨bytes, reached, count⟩ := eligible_prefix inv c.config.maxEntries.toNat (Nat.le_refl _)
  rw [eligibleResidualBytes, ExpertCache.slotCount, reached]
  exact count

theorem required_reclaim_eq (inv : Inv c) (incoming : UInt64) : (requiredReclaim c incoming).toNat =
      incoming.toNat - (c.config.budgetBytes.toNat - c.stats.payloadBytes.toNat) := by
  have available := u64_sub _ _ (payload_in_budget inv)
  unfold requiredReclaim
  dsimp only
  split
  · rename_i more
    have larger := UInt64.lt_iff_toNat_lt.mp more
    rw [u64_sub _ _ (by omega), available]
  · rename_i fits
    have smaller : ¬ _ := fun less => fits (UInt64.lt_iff_toNat_lt.mpr less)
    rw [available] at smaller
    simp only [UInt64.toNat_zero]
    omega

-- The fields the victim order and the floor test read.
structure SamePolicy (planned live : CacheEntry) : Prop where
  occupied : planned.occupied = live.occupied
  key : planned.key = live.key
  charge : planned.baseCharge = live.baseCharge
  pins : planned.pinCount = live.pinCount
  access : planned.lastAccess = live.lastAccess
  order : planned.admissionOrder = live.admissionOrder
  queue : planned.queue = live.queue

structure SameFloor (planned live : LayerState) : Prop where
  bytes : planned.planBaseBytes = live.baseBytes
  entries : planned.planBaseEntries = live.baseEntries
  floor : planned.floor = live.floor

-- The live cache `d` is the plan `q` carried out: the planned bases are gone, every other
-- base is as the plan sees it, and the bytes the plan counts as freed are free or still
-- held by unpinned residuals, which go before any further base.
structure Mirrors (start : ExpertCache) (q : Plan) (d : ExpertCache) : Prop where
  config : q.cache.config = d.config
  origin : d.config = start.config
  gone : ∀ i < d.config.maxEntries.toNat, (q.cache.entries i).plannedBaseEvict = true →
    (d.entries i).occupied = false
  same : ∀ i < d.config.maxEntries.toNat, (q.cache.entries i).plannedBaseEvict = false →
    SamePolicy (q.cache.entries i) (d.entries i)
  layers : ∀ l < d.config.layerCount.toNat, SameFloor (q.cache.layers l) (d.layers l)
  paid : d.stats.payloadBytes.toNat + q.freed.toNat =
    start.stats.payloadBytes.toNat + total d.config.maxEntries.toNat d.entries eligibleOf
  count : d.entryCount.toNat + q.bases.toNat = start.entryCount.toNat

variable {d : ExpertCache} {q : Plan}

theorem mirrors_floor {start : ExpertCache} (inv : Inv d) (mirrors : Mirrors start q d) (i : Nat)
    (inside : i < d.config.maxEntries.toNat) : baseFloorAllows q.cache i true = baseFloorAllows d i false := by
  cases planned : (q.cache.entries i).plannedBaseEvict with
  | true =>
    have gone := mirrors.gone i inside planned
    simp [baseFloorAllows, planned, gone]
  | false =>
    have same := mirrors.same i inside planned
    have unplanned := inv.unplanned i inside
    by_cases live : (d.entries i).occupied
    · have floor := mirrors.layers _ (inv.entries.valid i inside live).layer
      simp only [baseFloorAllows, planned, unplanned, same.occupied, same.pins, same.key, same.charge,
        floor.bytes, floor.entries, floor.floor, if_true, Bool.false_eq_true, if_false]
    · simp only [baseFloorAllows, same.occupied, live, Bool.not_false, Bool.true_or, if_true]

theorem mirrors_choose_base {start : ExpertCache} (inv : Inv d) (mirrors : Mirrors start q d) (protectedSlot : Option Nat) :
    chooseBase q.cache protectedSlot true = chooseBase d protectedSlot false := by
  have unplanned : ∀ i < d.config.maxEntries.toNat, baseFloorAllows q.cache i true = true →
      SamePolicy (q.cache.entries i) (d.entries i) :=
    fun i inside allows => mirrors.same i inside (floor_allows_live allows).2.2
  unfold chooseBase ExpertCache.slotCount
  rw [mirrors.config]
  apply best_of_congr
  · intro i inside
    rw [mirrors_floor inv mirrors i inside]
  · intro i insideI j insideJ fitsI fitsJ
    simp only [Bool.and_eq_true] at fitsI fitsJ
    have a := unplanned i insideI fitsI.2
    have b := unplanned j insideJ fitsJ.2
    simp only [candidatePrecedes, mirrors.config, a.queue, b.queue, a.order, b.order, a.access, b.access]

theorem mirrors_start (inv : Inv c) : Mirrors c (planStart c) c where
  config := rfl
  origin := rfl
  gone i inside planned := by
    have unplanned := inv.unplanned i inside
    simp only [planStart] at planned
    rw [unplanned] at planned
    cases planned
  same i inside _ := ⟨rfl, rfl, rfl, rfl, rfl, rfl, rfl⟩
  layers l bound := by
    simp only [planStart, resetPlanLayers, bound, if_true]
    exact ⟨rfl, rfl, rfl⟩
  paid := by
    simp only [planStart]
    rw [eligible_bytes_eq inv]
  count := by simp [planStart]

theorem mirrors_residual {start : ExpertCache} (inv : Inv d) (mirrors : Mirrors start q d) (s : Nat)
    (inside : s < d.config.maxEntries.toNat) (occupied : (d.entries s).occupied)
    (residual : (d.entries s).hasResidual) (unpinned : (d.entries s).pinCount = 0)
    (reason : EcacheReleaseReason) (countDemotion : Bool) : Mirrors start q (releaseResidual d s reason countDemotion) := by
  obtain ⟨frame, bases, count⟩ := release_residual_frame inv s inside occupied residual reason countDemotion
  obtain ⟨_, inPayload, _, _⟩ := residual_contributes inv s inside occupied residual
  have paid := mirrors.paid
  have moved := total_write d.config.maxEntries.toNat d.entries eligibleOf s (dropResidual (d.entries s)) inside
  have held : eligibleOf (d.entries s) = (d.entries s).residualCharge.toNat := by
    simp [eligibleOf, residualEligible, occupied, residual, unpinned]
  have empty : eligibleOf (dropResidual (d.entries s)) = 0 := by
    simp [eligibleOf, residualEligible, dropResidual]
  have less : (d.stats.payloadBytes - (d.entries s).residualCharge).toNat =
      d.stats.payloadBytes.toNat - (d.entries s).residualCharge.toNat := u64_sub _ _ inPayload
  refine ⟨mirrors.config.trans frame.config.symm, frame.config.trans mirrors.origin, ?_, ?_, ?_, ?_, ?_⟩
  · intro i bound planned
    rw [frame.config] at bound
    have gone := mirrors.gone i bound planned
    rw [frame.entries]
    by_cases here : i = s
    · subst here
      rw [gone] at occupied
      cases occupied
    · rwa [write_other _ _ _ _ here]
  · intro i bound planned
    rw [frame.config] at bound
    have same := mirrors.same i bound planned
    rw [frame.entries]
    by_cases here : i = s
    · subst here
      rw [write_same]
      exact ⟨same.occupied, same.key, same.charge, same.pins, same.access, same.order, same.queue⟩
    · rwa [write_other _ _ _ _ here]
  · intro l bound
    rw [frame.config] at bound
    have floor := mirrors.layers l bound
    exact ⟨floor.bytes.trans (bases l).1.symm, floor.entries.trans (bases l).2.symm, floor.floor.trans (frame.floors l).symm⟩
  · rw [frame.payload, frame.entries, frame.config]
    simp only [residualEvent]
    omega
  · rw [count]
    exact mirrors.count

theorem mirrors_base {start : ExpertCache} (inv : Inv d) (mirrors : Mirrors start q d) (s : Nat)
    (inside : s < d.config.maxEntries.toNat) (cleared : chooseResidual d = none)
    (allows : baseFloorAllows d s false = true) (reason : EcacheReleaseReason) (countEviction : Bool) :
    Mirrors start (planEvict q s) (releaseBareBase d s reason countEviction) := by
  obtain ⟨occupied, unpinned, _⟩ := floor_allows_live allows
  obtain ⟨frame, others, touched, count⟩ := release_bare_base_frame inv s inside occupied reason countEviction
  obtain ⟨_, inPayload, inLayer, inCount, inEntries⟩ := base_contributes inv s inside occupied
  have unplanned : (q.cache.entries s).plannedBaseEvict = false :=
    (floor_allows_live (mirrors_floor inv mirrors s inside ▸ allows)).2.2
  have same := mirrors.same s inside unplanned
  have noneLeft : ∀ entries, (∀ i < d.config.maxEntries.toNat, residualEligible (entries i) = false) →
      total d.config.maxEntries.toNat entries eligibleOf = 0 := by
    intro entries empty
    exact (total_zero_iff _ _ _).mpr (fun i bound => by simp [eligibleOf, empty i bound])
  have before := noneLeft d.entries (choose_residual_none.mp cleared)
  have after := noneLeft (write d.entries s {}) (by
    intro i bound
    by_cases here : i = s
    · subst here
      simp [residualEligible]
    · rw [write_other _ _ _ _ here]
      exact choose_residual_none.mp cleared i bound)
  have paid := mirrors.paid
  have counted := mirrors.count
  have less := u64_sub _ _ inPayload
  have fewer := u32_sub _ 1 inEntries
  have limit := start.stats.payloadBytes.toNat_lt
  have bases := start.entryCount.toNat_lt
  refine ⟨mirrors.config.trans frame.config.symm, frame.config.trans mirrors.origin, ?_, ?_, ?_, ?_, ?_⟩
  · intro i bound planned
    rw [frame.config] at bound
    rw [frame.entries]
    by_cases here : i = s
    · subst here
      simp
    · simp only [planEvict, write_other _ _ _ _ here] at planned ⊢
      exact mirrors.gone i bound planned
  · intro i bound planned
    rw [frame.config] at bound
    rw [frame.entries]
    by_cases here : i = s
    · subst here
      simp [planEvict, markEvict] at planned
    · simp only [planEvict, write_other _ _ _ _ here] at planned ⊢
      exact mirrors.same i bound planned
  · intro l bound
    rw [frame.config] at bound
    have floor := mirrors.layers l bound
    by_cases here : l = (d.entries s).key.layer.toNat
    · have live := touched l here
      have floors := frame.floors l
      simp only [planEvict, same.key, same.charge, ← here, write_same]
      exact ⟨by rw [live.1, floor.bytes], by rw [live.2, floor.entries], by rw [floors, floor.floor]⟩
    · simp only [planEvict, same.key, write_other _ _ _ _ here, others l here]
      exact floor
  · rw [frame.payload, frame.entries, frame.config]
    simp only [baseEvent, planEvict, same.charge]
    rw [u64_add _ _ (by omega)]
    omega
  · simp only [planEvict]
    rw [count, u32_add _ 1 (by simp only [UInt32.toNat_one] at *; omega)]
    simp only [UInt32.toNat_one] at *
    omega

def RoomMade (incoming : UInt64) (needEntrySlot : Bool) (d : ExpertCache) : Prop :=
  incoming.toNat + d.stats.payloadBytes.toNat ≤ d.config.budgetBytes.toNat ∧
    (needEntrySlot = true → d.entryCount.toNat < d.config.maxEntries.toNat)

theorem make_room_step_done (inv : Inv d) (incoming : UInt64) (needEntrySlot : Bool) : RoomMade incoming needEntrySlot d ↔
      requiredReclaim d incoming = 0 ∧ (!(needEntrySlot && d.entryCount ≥ d.config.maxEntries)) = true := by
  have needed := required_reclaim_eq inv incoming
  have inBudget := payload_in_budget inv
  have zero : requiredReclaim d incoming = 0 ↔ (requiredReclaim d incoming).toNat = 0 := by
    rw [← UInt64.toNat_inj, UInt64.toNat_zero]
  have slot : (d.entryCount ≥ d.config.maxEntries) ↔ d.config.maxEntries.toNat ≤ d.entryCount.toNat :=
    UInt32.le_iff_toNat_le
  rw [zero, needed, RoomMade]
  cases needEntrySlot with
  | false =>
    simp only [Bool.false_and, Bool.not_false, Bool.false_eq_true, false_implies, and_true]
    omega
  | true =>
    simp only [Bool.true_and, Bool.not_eq_true', decide_eq_false_iff_not, slot, forall_const]
    omega

def Suffices (start : ExpertCache) (incoming : UInt64) (needEntrySlot : Bool) (q : Plan) : Prop :=
  (requiredReclaim start incoming).toNat ≤ q.freed.toNat ∧
    (needEntrySlot = true → start.entryCount.toNat - q.bases.toNat < start.config.maxEntries.toNat)

def Feasible (start : ExpertCache) (incoming : UInt64) (needEntrySlot : Bool) (protectedSlot : Option Nat)
    (q : Plan) : Prop :=
  Suffices start incoming needEntrySlot q ∨
    ∃ fuel, planEnough (requiredReclaim start incoming) needEntrySlot
      (iterate (planStep (requiredReclaim start incoming) needEntrySlot protectedSlot) fuel q) = true

theorem entry_count_bound (inv : Inv c) : c.entryCount.toNat ≤ c.config.maxEntries.toNat := by
  rw [inv.usage.count]
  exact total_le_count _ _ _ (fun entry => by unfold countOf; split <;> omega)

theorem enough_suffices {start : ExpertCache} (inv : Inv start) {incoming : UInt64} {needEntrySlot : Bool}
    (enough : planEnough (requiredReclaim start incoming) needEntrySlot q = true) : Suffices start incoming needEntrySlot q := by
  have count := entry_count_bound inv
  have some := inv.sizes.some
  simp only [planEnough, Bool.and_eq_true, decide_eq_true_eq, Bool.or_eq_true, Bool.not_eq_true'] at enough
  refine ⟨UInt64.le_iff_toNat_le.mp enough.1, fun needed => ?_⟩
  rcases enough.2 with unneeded | evicts
  · rw [needed] at unneeded
    cases unneeded
  · have one := UInt32.le_iff_toNat_le.mp evicts
    simp only [UInt32.toNat_one] at one
    omega

theorem suffices_made {start : ExpertCache} (inv : Inv start)
    (mirrors : Mirrors start q d) (cleared : chooseResidual d = none) {incoming : UInt64}
    {needEntrySlot : Bool} (suffices_ : Suffices start incoming needEntrySlot q) : RoomMade incoming needEntrySlot d := by
  have needed := required_reclaim_eq inv incoming
  have startBudget := payload_in_budget inv
  have paid := mirrors.paid
  have counted := mirrors.count
  have none : total d.config.maxEntries.toNat d.entries eligibleOf = 0 :=
    (total_zero_iff _ _ _).mpr (fun i bound => by
      simp [eligibleOf, choose_residual_none.mp cleared i bound])
  have enough := suffices_.1
  refine ⟨?_, fun need => ?_⟩
  · rw [mirrors.origin]
    omega
  · have free := suffices_.2 need
    rw [mirrors.origin]
    omega

def Tracks (start : ExpertCache) (incoming : UInt64) (needEntrySlot : Bool) (protectedSlot : Option Nat)
    (d : ExpertCache) : Prop :=
  Inv d ∧ ∃ q, Mirrors start q d ∧ Feasible start incoming needEntrySlot protectedSlot q

variable {start : ExpertCache} {incoming : UInt64} {needEntrySlot : Bool} {protectedSlot : Option Nat}

theorem plan_step_mirrored (live : Inv d) (mirrors : Mirrors start q d)
    (short : planEnough (requiredReclaim start incoming) needEntrySlot q = false) :
    planStep (requiredReclaim start incoming) needEntrySlot protectedSlot q =
      (chooseBase d protectedSlot false).map (planEvict q) := by
  simp only [planStep, short, Bool.false_eq_true, if_false, mirrors_choose_base live mirrors]

theorem tracks_step (inv : Inv start) (d e : ExpertCache) (tracks : Tracks start incoming needEntrySlot protectedSlot d)
    (step : makeRoomStep incoming needEntrySlot protectedSlot d = some e) :
    Tracks start incoming needEntrySlot protectedSlot e := by
  obtain ⟨live, q, mirrors, feasible⟩ := tracks
  have next := releases_inv live (make_room_step_allowed live step)
  rcases make_room_step_releases live step with ⟨s, chosen, rfl⟩ | ⟨s, cleared, chosen, rfl⟩
  · obtain ⟨inside, occupied, residual, unpinned⟩ := choose_residual_some chosen
    exact ⟨next, q, mirrors_residual live mirrors s inside occupied residual unpinned _ _, feasible⟩
  · obtain ⟨inside, _, allows⟩ := choose_base_some chosen
    have unmade : ¬ Suffices start incoming needEntrySlot q := by
      intro reached
      have done := (make_room_step_done live incoming needEntrySlot).mp
        (suffices_made inv mirrors cleared reached)
      simp only [makeRoomStep, done, and_self, if_true, reduceCtorEq] at step
    have short : planEnough (requiredReclaim start incoming) needEntrySlot q = false := by
      cases enough : planEnough (requiredReclaim start incoming) needEntrySlot q with
      | false => rfl
      | true => exact absurd (enough_suffices inv enough) unmade
    have planned : planStep (requiredReclaim start incoming) needEntrySlot protectedSlot q = some (planEvict q s) := by
      rw [plan_step_mirrored live mirrors short, chosen, Option.map_some]
    refine ⟨next, planEvict q s, mirrors_base live mirrors s inside cleared allows _ _, .inr ?_⟩
    rcases feasible with reached | ⟨fuel, enough⟩
    · exact absurd reached unmade
    · cases fuel with
      | zero => rw [iterate, short] at enough; cases enough
      | succ fuel => exact ⟨fuel, by rwa [iterate_next planned] at enough⟩

theorem tracks_stopped (inv : Inv start) (tracks : Tracks start incoming needEntrySlot protectedSlot d)
    (stopped : makeRoomStep incoming needEntrySlot protectedSlot d = none) : RoomMade incoming needEntrySlot d := by
  obtain ⟨live, q, mirrors, feasible⟩ := tracks
  by_contra unmade
  have open_ := mt (make_room_step_done live incoming needEntrySlot).mpr unmade
  simp only [makeRoomStep, if_neg open_] at stopped
  cases cleared : chooseResidual d with
  | some s => simp [cleared] at stopped
  | none =>
    cases chosen : chooseBase d protectedSlot false with
    | some s => simp [cleared, chosen] at stopped
    | none =>
      rcases feasible with reached | ⟨fuel, enough⟩
      · exact unmade (suffices_made inv mirrors cleared reached)
      · have stuck : planStep (requiredReclaim start incoming) needEntrySlot protectedSlot q = none := by
          cases short : planEnough (requiredReclaim start incoming) needEntrySlot q with
          | true => simp [planStep, short]
          | false => rw [plan_step_mirrored live mirrors short, chosen, Option.map_none]
        rw [iterate_idle stuck] at enough
        exact unmade (suffices_made inv mirrors cleared (enough_suffices inv enough))

theorem feasible_makes_room (inv : Inv start) (live : Inv d) (mirrors : Mirrors start (planStart start) d)
    (feasible : Feasible start incoming needEntrySlot protectedSlot (planStart start)) :
    RoomMade incoming needEntrySlot (makeRoom d incoming needEntrySlot protectedSlot) := by
  have tracked := iterate_invariant (n := 2 * d.slotCount) (tracks_step inv)
    ⟨live, planStart start, mirrors, feasible⟩
  have stopped := (make_room_releases live incoming needEntrySlot protectedSlot).2
  rw [makeRoom, note_reclaim_eq tracked.1] at stopped ⊢
  exact tracks_stopped inv tracked stopped

def planless (layer : LayerState) : LayerState :=
  { layer with planBaseBytes := 0, planBaseEntries := 0 }

def markless (entry : CacheEntry) : CacheEntry :=
  { entry with plannedBaseEvict := false }

structure PlanKeeps (c q : ExpertCache) : Prop where
  rest : { q with entries := c.entries, layers := c.layers } = c
  entries : ∀ i, markless (q.entries i) = markless (c.entries i)
  beyond : ∀ i, c.config.maxEntries.toNat ≤ i → q.entries i = c.entries i
  layers : ∀ l, planless (q.layers l) = planless (c.layers l)

theorem plan_keeps_config {q : ExpertCache} (keeps : PlanKeeps c q) : q.config = c.config := by
  have same := congrArg ExpertCache.config keeps.rest
  exact same

theorem reset_plan_planless (c : ExpertCache) (l : Nat) : planless (resetPlanLayers c l) = planless (c.layers l) := by
  unfold resetPlanLayers
  split <;> rfl

theorem plan_start_keeps (c : ExpertCache) : PlanKeeps c (planStart c).cache where
  rest := rfl
  entries _ := rfl
  beyond _ _ := rfl
  layers l := reset_plan_planless c l

theorem plan_step_keeps {needed : UInt64} (p q : Plan) (keeps : PlanKeeps c p.cache)
    (step : planStep needed needEntrySlot protectedSlot p = some q) : PlanKeeps c q.cache := by
  unfold planStep at step
  split at step
  · cases step
  · obtain ⟨s, chosen, rfl⟩ := Option.map_eq_some_iff.mp step
    obtain ⟨inside, _, _⟩ := choose_base_some chosen
    rw [plan_keeps_config keeps] at inside
    refine ⟨keeps.rest, ?_, ?_, ?_⟩
    · intro i
      by_cases here : i = s
      · subst here
        simpa [planEvict, markEvict, markless] using keeps.entries i
      · simpa only [planEvict, write_other _ _ _ _ here] using keeps.entries i
    · intro i bound
      simpa only [planEvict, write_other _ _ _ _ (show i ≠ s by omega)] using keeps.beyond i bound
    · intro l
      by_cases here : l = (p.cache.entries s).key.layer.toNat
      · subst here
        simpa [planEvict, planless] using keeps.layers (p.cache.entries s).key.layer.toNat
      · simpa only [planEvict, write_other _ _ _ _ here] using keeps.layers l

theorem clear_plan_eq {q : ExpertCache} (inv : Inv c) (keeps : PlanKeeps c q) :
    clearPlan q = { c with layers := resetPlanLayers q } := by
  have entries : (fun i => if i < q.slotCount then markless (q.entries i) else q.entries i) = c.entries := by
    funext i
    have config := plan_keeps_config keeps
    by_cases inside : i < q.slotCount
    · rw [if_pos inside, keeps.entries i]
      have unplanned := inv.unplanned i (by rw [ExpertCache.slotCount, config] at inside; exact inside)
      cases held : c.entries i with
      | mk => simp only [held] at unplanned; simp [markless, unplanned]
    · rw [if_neg inside]
      exact keeps.beyond i (by rw [ExpertCache.slotCount, config] at inside; omega)
  calc clearPlan q = { q with entries := c.entries, layers := resetPlanLayers q } := by
        rw [← entries]
        rfl
    _ = { ({ q with entries := c.entries, layers := c.layers } : ExpertCache) with
          layers := resetPlanLayers q } := rfl
    _ = { c with layers := resetPlanLayers q } := by rw [keeps.rest]

theorem planless_same {a b : LayerState} (same : planless a = planless b) :
    a.floor = b.floor ∧ a.baseBytes = b.baseBytes ∧ a.residualBytes = b.residualBytes ∧
      a.baseEntries = b.baseEntries ∧ a.residualEntries = b.residualEntries := by
  cases a
  cases b
  simp only [planless, LayerState.mk.injEq] at same
  exact ⟨same.1, same.2.1, same.2.2.1, same.2.2.2.2.1, same.2.2.2.2.2.1⟩

theorem planless_inv (inv : Inv c) (layers : Nat → LayerState)
    (same : ∀ l, planless (layers l) = planless (c.layers l)) : Inv { c with layers := layers } := by
  refine ⟨inv.magic, inv.release, inv.alignment, inv.sizes, inv.budget, inv.metadata, inv.entries, inv.index,
    ?_, inv.unplanned, inv.exact⟩
  refine ⟨inv.usage.base, inv.usage.residual, inv.usage.payload, inv.usage.count, inv.usage.counted,
    fun l bound => ?_, inv.usage.peak, inv.usage.peakBudget⟩
  obtain ⟨_, bytes, residual, entries, residuals⟩ := planless_same (same l)
  have was := inv.usage.layer l bound
  exact ⟨bytes ▸ was.baseBytes, residual ▸ was.residualBytes, entries ▸ was.baseEntries, residuals ▸ was.residualEntries⟩

theorem mirrors_planless (mirrors : Mirrors start q d) (layers : Nat → LayerState)
    (same : ∀ l, planless (layers l) = planless (d.layers l)) : Mirrors start q { d with layers := layers } where
  config := mirrors.config
  origin := mirrors.origin
  gone := mirrors.gone
  same := mirrors.same
  layers l bound := by
    have floor := mirrors.layers l bound
    obtain ⟨floors, bytes, _, entries, _⟩ := planless_same (same l)
    exact ⟨floor.bytes.trans bytes.symm, floor.entries.trans entries.symm, floor.floor.trans floors.symm⟩
  paid := mirrors.paid
  count := mirrors.count

-- The admission proof changes nothing but plan totals, and when it answers yes make_room succeeds.
theorem can_make_room_spec (inv : Inv c) (incoming : UInt64) (needEntrySlot : Bool) (protectedSlot : Option Nat) :
    ∃ layers, (canMakeRoom c incoming needEntrySlot protectedSlot).1 = { c with layers := layers } ∧
      (∀ l, planless (layers l) = planless (c.layers l)) ∧
      ((canMakeRoom c incoming needEntrySlot protectedSlot).2 = true →
        RoomMade incoming needEntrySlot
          (makeRoom { c with layers := layers } incoming needEntrySlot protectedSlot)) := by
  unfold canMakeRoom
  rw [note_reclaim_eq inv]
  split
  · exact ⟨c.layers, rfl, fun _ => rfl, fun impossible => by cases impossible⟩
  · dsimp only
    split
    · rename_i spared
      refine ⟨c.layers, rfl, fun _ => rfl, fun _ => ?_⟩
      apply feasible_makes_room inv inv (mirrors_start inv)
      refine .inl ⟨?_, fun need => ?_⟩
      · simp only [Bool.not_eq_true', Bool.or_eq_false_iff, decide_eq_false_iff_not, UInt64.lt_iff_toNat_lt] at spared
        have enough := spared.2
        simp only [planStart]
        omega
      · simp only [need, Bool.true_and, Bool.not_eq_true', Bool.or_eq_false_iff, decide_eq_false_iff_not,
          ge_iff_le, UInt32.le_iff_toNat_le] at spared
        simp only [planStart, UInt32.toNat_zero]
        omega
    · have stepKeeps : ∀ p q, PlanKeeps c p.cache →
          planStep (requiredReclaim c incoming) needEntrySlot protectedSlot p = some q → PlanKeeps c q.cache :=
        plan_step_keeps
      have keeps := iterate_invariant (n := c.slotCount) stepKeeps (plan_start_keeps c)
      have planned : ∀ l, planless (resetPlanLayers _ l) = planless (c.layers l) :=
        fun l => (reset_plan_planless _ l).trans (keeps.layers l)
      refine ⟨resetPlanLayers _, clear_plan_eq inv keeps, planned, fun enough => ?_⟩
      exact feasible_makes_room inv (planless_inv inv _ planned)
        (mirrors_planless (mirrors_start inv) _ planned) (.inr ⟨c.slotCount, enough⟩)

def unmarkedOf (entry : CacheEntry) : Nat :=
  if entry.occupied && !entry.plannedBaseEvict then 1 else 0

theorem plan_stops (needed : UInt64) : planStep needed needEntrySlot protectedSlot
      (iterate (planStep needed needEntrySlot protectedSlot) c.slotCount (planStart c)) = none := by
  have kept : ∀ p q : Plan, p.cache.config = c.config →
      planStep needed needEntrySlot protectedSlot p = some q → q.cache.config = c.config := by
    intro p q config step
    unfold planStep at step
    split at step
    · cases step
    · obtain ⟨s, _, rfl⟩ := Option.map_eq_some_iff.mp step
      exact config
  apply iterate_stopped (fun p => total c.config.maxEntries.toNat p.cache.entries unmarkedOf) kept
  · intro p q config step
    unfold planStep at step
    split at step
    · cases step
    · obtain ⟨s, chosen, rfl⟩ := Option.map_eq_some_iff.mp step
      obtain ⟨inside, _, allows⟩ := choose_base_some chosen
      obtain ⟨occupied, _, unmarked⟩ := floor_allows_live allows
      have moved := total_write c.config.maxEntries.toNat p.cache.entries unmarkedOf s
        (markEvict (p.cache.entries s)) (config ▸ inside)
      have held : unmarkedOf (p.cache.entries s) = 1 := by simp [unmarkedOf, occupied, unmarked]
      have gone : unmarkedOf (markEvict (p.cache.entries s)) = 0 := by simp [unmarkedOf, markEvict]
      rw [held, gone] at moved
      change total c.config.maxEntries.toNat (write p.cache.entries s _) unmarkedOf < _
      omega
  · rfl
  · exact total_le_count _ _ _ (fun entry => by unfold unmarkedOf; split <;> omega)

end SamosaChat.Ecache
