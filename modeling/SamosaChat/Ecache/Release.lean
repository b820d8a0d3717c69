import SamosaChat.Ecache.Invariant

set_option autoImplicit false

namespace SamosaChat.Ecache

open Slots Words

def notePrefetchWaste (stats : EcacheStats) (unused : Bool) (sourceBytes : UInt64) : EcacheStats :=
  if unused then
    { stats with
      wastedPrefetchPlanes := satInc stats.wastedPrefetchPlanes
      wastedPrefetchBytes := satAdd stats.wastedPrefetchBytes sourceBytes }
  else stats

def residualEvent (entry : CacheEntry) (reason : EcacheReleaseReason) : EcacheReleaseEvent where
  key := entry.key
  plane := .residual
  reason := reason
  payload := entry.residualPayload
  logicalBytes := entry.residualLogical
  chargedBytes := entry.residualCharge
  sourceBytesRead := entry.residualRead
  prefetchedUnused := entry.residualPrefetchedUnused

def baseEvent (entry : CacheEntry) (reason : EcacheReleaseReason) : EcacheReleaseEvent where
  key := entry.key
  plane := .base
  reason := reason
  payload := entry.basePayload
  logicalBytes := entry.baseLogical
  chargedBytes := entry.baseCharge
  sourceBytesRead := entry.baseRead
  prefetchedUnused := entry.basePrefetchedUnused

def dropResidual (entry : CacheEntry) : CacheEntry :=
  { entry with
    residualPayload := 0
    residualLogical := 0
    residualCharge := 0
    residualRead := 0
    residualPrefetchedUnused := false
    hasResidual := false }

def releaseResidual (c : ExpertCache) (slot : Nat) (reason : EcacheReleaseReason)
    (countDemotion : Bool) : ExpertCache :=
  let entry := c.entries slot
  let layer := c.layers entry.key.layer.toNat
  if !entry.occupied || !entry.hasResidual then c
  else
    let event := residualEvent entry reason
    let stats := notePrefetchWaste c.stats event.prefetchedUnused event.sourceBytesRead
    { c with
      stats := { stats with
        payloadBytes := stats.payloadBytes - entry.residualCharge
        residualBytes := stats.residualBytes - entry.residualCharge
        demotions := if countDemotion then satInc stats.demotions else stats.demotions }
      layers := write c.layers entry.key.layer.toNat { layer with
        residualBytes := layer.residualBytes - entry.residualCharge
        residualEntries := layer.residualEntries - 1 }
      entries := write c.entries slot (dropResidual entry)
      released := c.released ++ [event]
      wrapped := c.wrapped || decide (stats.payloadBytes < entry.residualCharge) ||
        decide (stats.residualBytes < entry.residualCharge) ||
        decide (layer.residualBytes < entry.residualCharge) || decide (layer.residualEntries < 1) }

def creditBase (c : ExpertCache) (slot : Nat) (countEviction : Bool) : ExpertCache :=
  let entry := c.entries slot
  let layer := c.layers entry.key.layer.toNat
  let stats := notePrefetchWaste c.stats entry.basePrefetchedUnused entry.baseRead
  { c with
    stats := { stats with
      payloadBytes := stats.payloadBytes - entry.baseCharge
      baseBytes := stats.baseBytes - entry.baseCharge
      entries := c.entryCount - 1
      evictions := if countEviction then satInc stats.evictions else stats.evictions }
    layers := write c.layers entry.key.layer.toNat { layer with
      baseBytes := layer.baseBytes - entry.baseCharge
      baseEntries := layer.baseEntries - 1 }
    entryCount := c.entryCount - 1
    wrapped := c.wrapped || decide (stats.payloadBytes < entry.baseCharge) ||
      decide (stats.baseBytes < entry.baseCharge) || decide (layer.baseBytes < entry.baseCharge) ||
      decide (layer.baseEntries < 1) || decide (c.entryCount < 1) }

def forgetEntry (c : ExpertCache) (slot : Nat) : ExpertCache :=
  let erased := hashErase c (c.entries slot).key
  let zeroed := { erased with entries := write erased.entries slot {} }
  if zeroed.tombstones > zeroed.bucketCount / 4 then hashRebuild zeroed else zeroed

-- The part of release_base below the nested residual release.
def releaseBareBase (c : ExpertCache) (slot : Nat) (reason : EcacheReleaseReason)
    (countEviction : Bool) : ExpertCache :=
  let event := baseEvent (c.entries slot) reason
  let after := forgetEntry (creditBase c slot countEviction) slot
  { after with released := after.released ++ [event] }

def releaseBase (c : ExpertCache) (slot : Nat) (reason : EcacheReleaseReason)
    (countEviction : Bool) : ExpertCache :=
  if !(c.entries slot).occupied then c
  else if (c.entries slot).hasResidual then
    releaseBareBase (releaseResidual c slot reason false) slot reason countEviction
  else releaseBareBase c slot reason countEviction

section Waste

variable (stats : EcacheStats) (unused : Bool) (bytes : UInt64)

@[simp] theorem waste_payload : (notePrefetchWaste stats unused bytes).payloadBytes = stats.payloadBytes := by
  cases unused <;> rfl

@[simp] theorem waste_base : (notePrefetchWaste stats unused bytes).baseBytes = stats.baseBytes := by
  cases unused <;> rfl

@[simp] theorem waste_residual : (notePrefetchWaste stats unused bytes).residualBytes = stats.residualBytes := by
  cases unused <;> rfl

@[simp] theorem waste_peak : (notePrefetchWaste stats unused bytes).peakPayloadBytes = stats.peakPayloadBytes := by
  cases unused <;> rfl

@[simp] theorem waste_entries : (notePrefetchWaste stats unused bytes).entries = stats.entries := by
  cases unused <;> rfl

@[simp] theorem waste_budget : (notePrefetchWaste stats unused bytes).budgetBytes = stats.budgetBytes := by
  cases unused <;> rfl

@[simp] theorem waste_metadata : (notePrefetchWaste stats unused bytes).metadataBytes = stats.metadataBytes := by
  cases unused <;> rfl

end Waste

section Contributes

variable {c : ExpertCache} (inv : Inv c) (s : Nat) (inside : s < c.config.maxEntries.toNat)
    (occupied : (c.entries s).occupied)
include inv s inside occupied

theorem residual_contributes (residual : (c.entries s).hasResidual) :
    let entry := c.entries s
    let layer := c.layers entry.key.layer.toNat
    entry.residualCharge.toNat ≤ c.stats.residualBytes.toNat ∧
      entry.residualCharge.toNat ≤ c.stats.payloadBytes.toNat ∧
      entry.residualCharge.toNat ≤ layer.residualBytes.toNat ∧ 1 ≤ layer.residualEntries.toNat := by
  have usage := inv.usage
  have valid := inv.entries.valid s inside occupied
  have ofLayer := usage.layer _ valid.layer
  have held := measure_le_total _ c.entries residualOf s inside
  have heldLayer := measure_le_total _ c.entries (onLayer (c.entries s).key.layer.toNat residualOf) s inside
  have heldCount := measure_le_total _ c.entries (onLayer (c.entries s).key.layer.toNat residualCountOf) s inside
  rw [on_layer_same] at heldLayer heldCount
  simp only [residualOf, residualCountOf, occupied, residual, Bool.and_self, if_true] at held heldLayer heldCount
  have base := usage.residual
  have sum := usage.payload
  refine ⟨by omega, by omega, ?_, ?_⟩
  · rw [ofLayer.residualBytes]; exact heldLayer
  · rw [ofLayer.residualEntries]; exact heldCount

theorem base_contributes :
    let entry := c.entries s
    let layer := c.layers entry.key.layer.toNat
    entry.baseCharge.toNat ≤ c.stats.baseBytes.toNat ∧
      entry.baseCharge.toNat ≤ c.stats.payloadBytes.toNat ∧
      entry.baseCharge.toNat ≤ layer.baseBytes.toNat ∧ 1 ≤ layer.baseEntries.toNat ∧
      1 ≤ c.entryCount.toNat := by
  have usage := inv.usage
  have valid := inv.entries.valid s inside occupied
  have ofLayer := usage.layer _ valid.layer
  have held := measure_le_total _ c.entries baseOf s inside
  have heldLayer := measure_le_total _ c.entries (onLayer (c.entries s).key.layer.toNat baseOf) s inside
  have heldCount := measure_le_total _ c.entries (onLayer (c.entries s).key.layer.toNat countOf) s inside
  have counted := occupied_counted c.entries _ s inside occupied
  rw [on_layer_same] at heldLayer heldCount
  simp only [baseOf, countOf, occupied, if_true] at held heldLayer heldCount
  have base := usage.base
  have sum := usage.payload
  refine ⟨by omega, by omega, ?_, ?_, ?_⟩
  · rw [ofLayer.baseBytes]; exact heldLayer
  · rw [ofLayer.baseEntries]; exact heldCount
  · rw [usage.count]; exact counted

theorem release_residual_eq
    (residual : (c.entries s).hasResidual) (reason : EcacheReleaseReason) (countDemotion : Bool) :
    let entry := c.entries s
    let layer := c.layers entry.key.layer.toNat
    let stats := notePrefetchWaste c.stats entry.residualPrefetchedUnused entry.residualRead
    releaseResidual c s reason countDemotion = { c with
      stats := { stats with
        payloadBytes := c.stats.payloadBytes - entry.residualCharge
        residualBytes := c.stats.residualBytes - entry.residualCharge
        demotions := if countDemotion then satInc stats.demotions else stats.demotions }
      layers := write c.layers entry.key.layer.toNat { layer with
        residualBytes := layer.residualBytes - entry.residualCharge
        residualEntries := layer.residualEntries - 1 }
      entries := write c.entries s (dropResidual entry)
      released := c.released ++ [residualEvent entry reason] } := by
  obtain ⟨inResidual, inPayload, inLayer, inCount⟩ := residual_contributes inv s inside occupied residual
  have kept : (c.wrapped || decide (c.stats.payloadBytes < (c.entries s).residualCharge) ||
      decide (c.stats.residualBytes < (c.entries s).residualCharge) ||
      decide ((c.layers (c.entries s).key.layer.toNat).residualBytes < (c.entries s).residualCharge) ||
      decide ((c.layers (c.entries s).key.layer.toNat).residualEntries < 1)) = c.wrapped := by
    rw [inv.exact, (u64_not_lt _ _).mpr inPayload, (u64_not_lt _ _).mpr inResidual,
      (u64_not_lt _ _).mpr inLayer, (u32_not_lt _ 1).mpr inCount]
    rfl
  simp only [releaseResidual, occupied, residual, Bool.not_true, Bool.or_self, Bool.false_eq_true,
    if_false, residualEvent, waste_payload, waste_residual, kept]

end Contributes

theorem drop_residual_valid {config : EcacheConfig} {entry : CacheEntry} (valid : EntryValid config entry) :
    EntryValid config (dropResidual entry) where
  layer := valid.layer
  payload := valid.payload
  logical := valid.logical
  charge := valid.charge
  queue := valid.queue
  access := valid.access
  order := valid.order
  residual live := by simp [dropResidual] at live
  bare _ := ⟨rfl, rfl, rfl, rfl, rfl⟩

theorem drop_residual_carries {entry : CacheEntry} {payload : Handle}
    (carries : CarriesHandle (dropResidual entry) payload) : CarriesHandle entry payload := by
  obtain ⟨occupied, base | ⟨live, _⟩⟩ := carries
  · exact ⟨occupied, .inl base⟩
  · simp [dropResidual] at live

theorem entries_shrink {config : EcacheConfig} {entries : Nat → CacheEntry} (good : EntriesOk config entries)
    (s : Nat) (entry : CacheEntry) (valid : entry.occupied → EntryValid config entry)
    (kept : entry.occupied → (entries s).occupied ∧ entry.key = (entries s).key)
    (carried : ∀ payload, CarriesHandle entry payload → CarriesHandle (entries s) payload) :
    EntriesOk config (write entries s entry) := by
  have keyed : ∀ i, (write entries s entry i).occupied →
      (entries i).occupied ∧ (write entries s entry i).key = (entries i).key := by
    intro i live
    by_cases here : i = s
    · subst here
      simp only [write_same] at live ⊢
      exact kept live
    · simp only [write_other _ _ _ _ here] at live ⊢
      exact ⟨live, trivial⟩
  have handled : ∀ i payload, CarriesHandle (write entries s entry i) payload →
      CarriesHandle (entries i) payload := by
    intro i payload carries
    by_cases here : i = s
    · subst here
      rw [write_same] at carries
      exact carried payload carries
    · rwa [write_other _ _ _ _ here] at carries
  refine ⟨?_, ?_, ?_⟩
  · intro i inside live
    by_cases here : i = s
    · subst here
      rw [write_same] at live ⊢
      exact valid live
    · rw [write_other _ _ _ _ here] at live ⊢
      exact good.valid i inside live
  · intro i insideI j insideJ liveI liveJ same
    rw [(keyed i liveI).2, (keyed j liveJ).2] at same
    exact good.keys i insideI j insideJ (keyed i liveI).1 (keyed j liveJ).1 same
  · intro i insideI j insideJ payload carriesI carriesJ
    exact good.handles i insideI j insideJ payload (handled i payload carriesI) (handled j payload carriesJ)

section Shifts

variable {c : ExpertCache} (inv : Inv c) (s : Nat) (inside : s < c.config.maxEntries.toNat)
    (occupied : (c.entries s).occupied)
include inv s inside occupied

theorem drop_residual_layer_shift (residual : (c.entries s).hasResidual) :
    LayerShift (c.entries s) (dropResidual (c.entries s)) (c.layers (c.entries s).key.layer.toNat)
      { c.layers (c.entries s).key.layer.toNat with
        residualBytes := (c.layers (c.entries s).key.layer.toNat).residualBytes - (c.entries s).residualCharge
        residualEntries := (c.layers (c.entries s).key.layer.toNat).residualEntries - 1 } := by
  obtain ⟨_, _, inLayer, inCount⟩ := residual_contributes inv s inside occupied residual
  have bytes := u64_sub _ _ inLayer
  have count := u32_sub _ 1 inCount
  refine ⟨rfl, ?_, rfl, ?_⟩
  · simp only [residualOf, dropResidual, occupied, residual, Bool.and_self, Bool.and_false, if_true, Bool.false_eq_true, if_false]
    omega
  · simp only [residualCountOf, dropResidual, occupied, residual, Bool.and_self, Bool.and_false, if_true,
      Bool.false_eq_true, if_false]
    simp only [UInt32.toNat_one] at count
    omega

theorem drop_residual_stats_shift (residual : (c.entries s).hasResidual) (after : EcacheStats)
    (base : after.baseBytes = c.stats.baseBytes)
    (fewer : after.residualBytes = c.stats.residualBytes - (c.entries s).residualCharge)
    (less : after.payloadBytes = c.stats.payloadBytes - (c.entries s).residualCharge) (counted : after.entries = c.stats.entries) :
    StatsShift (c.entries s) (dropResidual (c.entries s)) c.stats after c.entryCount c.entryCount := by
  obtain ⟨inResidual, inPayload, _, _⟩ := residual_contributes inv s inside occupied residual
  have bytes := u64_sub _ _ inResidual
  have paid := u64_sub _ _ inPayload
  have sum := inv.usage.payload
  refine ⟨by rw [base]; rfl, ?_, ?_, rfl, counted.trans inv.usage.counted⟩
  · rw [fewer]
    simp only [residualOf, dropResidual, occupied, residual, Bool.and_self, Bool.and_false, if_true, Bool.false_eq_true, if_false]
    omega
  · rw [less, base, fewer]
    omega

theorem release_residual_inv (residual : (c.entries s).hasResidual) (reason : EcacheReleaseReason) (countDemotion : Bool) :
    Inv (releaseResidual c s reason countDemotion) := by
  obtain ⟨_, inPayload, _, _⟩ := residual_contributes inv s inside occupied residual
  have valid := inv.entries.valid s inside occupied
  have paid := u64_sub _ _ inPayload
  have peak := inv.usage.peak
  rw [release_residual_eq inv s inside occupied residual]
  refine ⟨inv.magic, inv.release, inv.alignment, inv.sizes, ?_, ?_, ?_, ?_, ?_, ?_, inv.exact⟩
  · simpa using inv.budget
  · simpa using inv.metadata
  · exact entries_shrink inv.entries s _ (fun _ => drop_residual_valid valid)
      (fun live => ⟨live, rfl⟩) (fun _ carries => drop_residual_carries carries)
  · refine index_congr inv.sizes inv.index (fun i _ => ?_)
    by_cases here : i = s
    · subst here
      simp [dropResidual]
    · simp [here]
  · refine usage_replace inv.usage s inside (.inl rfl) (.inl rfl)
      (drop_residual_layer_shift inv s inside occupied residual)
      (drop_residual_stats_shift inv s inside occupied residual _ (by simp) rfl rfl (by simp)) ?_ ?_
    · simp only [waste_peak]
      omega
    · simpa using inv.usage.peakBudget
  · intro i within
    by_cases here : i = s
    · subst here
      simpa [dropResidual] using inv.unplanned i within
    · simpa [here] using inv.unplanned i within

theorem clear_base_layer_shift (bare : (c.entries s).hasResidual = false) :
    LayerShift (c.entries s) {} (c.layers (c.entries s).key.layer.toNat)
      { c.layers (c.entries s).key.layer.toNat with
        baseBytes := (c.layers (c.entries s).key.layer.toNat).baseBytes - (c.entries s).baseCharge
        baseEntries := (c.layers (c.entries s).key.layer.toNat).baseEntries - 1 } := by
  obtain ⟨_, _, inLayer, inCount, _⟩ := base_contributes inv s inside occupied
  have bytes := u64_sub _ _ inLayer
  have count := u32_sub _ 1 inCount
  simp only [UInt32.toNat_one] at count
  refine ⟨?_, ?_, ?_, ?_⟩
  · rw [(base_of_idle rfl : baseOf {} = 0)]
    simp only [baseOf, occupied, if_true]
    omega
  · simp [residualOf, bare]
  · rw [(count_of_idle rfl : countOf {} = 0)]
    simp only [countOf, occupied, if_true]
    omega
  · simp [residualCountOf, bare]

theorem clear_base_stats_shift (bare : (c.entries s).hasResidual = false) (after : EcacheStats)
    (fewer : after.baseBytes = c.stats.baseBytes - (c.entries s).baseCharge)
    (residual : after.residualBytes = c.stats.residualBytes)
    (less : after.payloadBytes = c.stats.payloadBytes - (c.entries s).baseCharge) (counted : after.entries = c.entryCount - 1) :
    StatsShift (c.entries s) {} c.stats after c.entryCount (c.entryCount - 1) := by
  obtain ⟨inBase, inPayload, _, _, inCount⟩ := base_contributes inv s inside occupied
  have bytes := u64_sub _ _ inBase
  have paid := u64_sub _ _ inPayload
  have count := u32_sub _ 1 inCount
  have sum := inv.usage.payload
  simp only [UInt32.toNat_one] at count
  refine ⟨?_, ?_, ?_, ?_, counted⟩
  · rw [fewer, (base_of_idle rfl : baseOf {} = 0)]
    simp only [baseOf, occupied, if_true]
    omega
  · simp [residual, residualOf, bare]
  · rw [less, fewer, residual]
    omega
  · rw [(count_of_idle rfl : countOf {} = 0)]
    simp only [countOf, occupied, if_true]
    omega

end Shifts

theorem entries_clear {config : EcacheConfig} {entries : Nat → CacheEntry} (good : EntriesOk config entries)
    (s : Nat) : EntriesOk config (write entries s {}) :=
  entries_shrink good s {} (fun live => by simp at live) (fun live => by simp at live)
    (fun _ carries => by simp [CarriesHandle] at carries)

theorem credit_base_eq {c : ExpertCache} (inv : Inv c) (s : Nat)
    (inside : s < c.config.maxEntries.toNat) (occupied : (c.entries s).occupied) (countEviction : Bool) :
    let entry := c.entries s
    let layer := c.layers entry.key.layer.toNat
    let stats := notePrefetchWaste c.stats entry.basePrefetchedUnused entry.baseRead
    creditBase c s countEviction = { c with
      stats := { stats with
        payloadBytes := c.stats.payloadBytes - entry.baseCharge
        baseBytes := c.stats.baseBytes - entry.baseCharge
        entries := c.entryCount - 1
        evictions := if countEviction then satInc stats.evictions else stats.evictions }
      layers := write c.layers entry.key.layer.toNat { layer with
        baseBytes := layer.baseBytes - entry.baseCharge
        baseEntries := layer.baseEntries - 1 }
      entryCount := c.entryCount - 1 } := by
  obtain ⟨inBase, inPayload, inLayer, inCount, inEntries⟩ := base_contributes inv s inside occupied
  have kept : (c.wrapped || decide (c.stats.payloadBytes < (c.entries s).baseCharge) ||
      decide (c.stats.baseBytes < (c.entries s).baseCharge) ||
      decide ((c.layers (c.entries s).key.layer.toNat).baseBytes < (c.entries s).baseCharge) ||
      decide ((c.layers (c.entries s).key.layer.toNat).baseEntries < 1) ||
      decide (c.entryCount < 1)) = c.wrapped := by
    rw [inv.exact, (u64_not_lt _ _).mpr inPayload, (u64_not_lt _ _).mpr inBase,
      (u64_not_lt _ _).mpr inLayer, (u32_not_lt _ 1).mpr inCount, (u32_not_lt _ 1).mpr inEntries]
    rfl
  simp only [creditBase, waste_payload, waste_base, kept]

theorem forget_entry_spec (c : ExpertCache) (s : Nat) (sizes : SizesOk c.slotCount c.bucketCount)
    (index : IndexOk c.slotCount c.bucketCount c.entries c.buckets c.tombstones)
    (keys : KeysDistinct c.slotCount (write c.entries s {}))
    (inside : s < c.slotCount) (occupied : (c.entries s).occupied) :
    ∃ buckets tombstones,
      forgetEntry c s = { c with
        entries := write c.entries s {}, buckets := buckets, tombstones := tombstones } ∧
      IndexOk c.slotCount c.bucketCount (write c.entries s {}) buckets tombstones := by
  obtain ⟨erased, erasedEq, kept⟩ := hash_erase_spec c s sizes index inside occupied
  obtain ⟨rebuilt, rebuiltEq, fresh⟩ := hash_rebuild_spec { c with
    entries := write c.entries s {}, buckets := erased, tombstones := c.tombstones + 1 } sizes keys
  by_cases crowded : c.tombstones + 1 > c.bucketCount / 4
  · exact ⟨rebuilt, 0, by simp only [forgetEntry, erasedEq, crowded, if_true, rebuiltEq], fresh⟩
  · exact ⟨erased, c.tombstones + 1, by simp only [forgetEntry, erasedEq, crowded, if_false], kept⟩

theorem release_bare_base_spec {c : ExpertCache} (inv : Inv c) (s : Nat)
    (inside : s < c.config.maxEntries.toNat) (occupied : (c.entries s).occupied)
    (reason : EcacheReleaseReason) (countEviction : Bool) :
    let entry := c.entries s
    let layer := c.layers entry.key.layer.toNat
    let stats := notePrefetchWaste c.stats entry.basePrefetchedUnused entry.baseRead
    ∃ buckets tombstones, releaseBareBase c s reason countEviction = { c with
        stats := { stats with
          payloadBytes := c.stats.payloadBytes - entry.baseCharge
          baseBytes := c.stats.baseBytes - entry.baseCharge
          entries := c.entryCount - 1
          evictions := if countEviction then satInc stats.evictions else stats.evictions }
        layers := write c.layers entry.key.layer.toNat { layer with
          baseBytes := layer.baseBytes - entry.baseCharge
          baseEntries := layer.baseEntries - 1 }
        entryCount := c.entryCount - 1
        entries := write c.entries s {}
        buckets := buckets
        tombstones := tombstones
        released := c.released ++ [baseEvent entry reason] } ∧
      IndexOk c.config.maxEntries.toNat c.bucketCount (write c.entries s {}) buckets tombstones := by
  have credited := credit_base_eq inv s inside occupied countEviction
  obtain ⟨buckets, tombstones, forgotten, index⟩ :=
    forget_entry_spec (creditBase c s countEviction) s
      (by rw [credited]; exact inv.sizes) (by rw [credited]; exact inv.index)
      (by rw [credited]; exact (entries_clear inv.entries s).keys)
      (by rw [credited]; exact inside) (by rw [credited]; exact occupied)
  refine ⟨buckets, tombstones, ?_, ?_⟩
  · simp only [releaseBareBase, forgotten]
    rw [credited]
  · rw [credited] at index
    exact index

theorem release_bare_base_inv {c : ExpertCache} (inv : Inv c) (s : Nat)
    (inside : s < c.config.maxEntries.toNat) (occupied : (c.entries s).occupied)
    (bare : (c.entries s).hasResidual = false) (reason : EcacheReleaseReason) (countEviction : Bool) :
    Inv (releaseBareBase c s reason countEviction) := by
  obtain ⟨buckets, tombstones, released, index⟩ :=
    release_bare_base_spec inv s inside occupied reason countEviction
  obtain ⟨_, inPayload, _, _, _⟩ := base_contributes inv s inside occupied
  have paid := u64_sub _ _ inPayload
  have peak := inv.usage.peak
  rw [released]
  refine ⟨inv.magic, inv.release, inv.alignment, inv.sizes, ?_, ?_, ?_, index, ?_, ?_, inv.exact⟩
  · simpa using inv.budget
  · simpa using inv.metadata
  · exact entries_clear inv.entries s
  · refine usage_replace inv.usage s inside (.inl rfl) (.inr rfl)
      (clear_base_layer_shift inv s inside occupied bare)
      (clear_base_stats_shift inv s inside occupied bare _ rfl (by simp) rfl rfl) ?_ ?_
    · simp only [waste_peak]
      omega
    · simpa using inv.usage.peakBudget
  · intro i within
    by_cases here : i = s
    · subst here
      simp
    · simpa [here] using inv.unplanned i within

end SamosaChat.Ecache
