import SamosaChat.Ecache.Setup

set_option autoImplicit false

namespace SamosaChat.Ecache

open Slots Words Probing

structure Retouched (old new : CacheEntry) : Prop where
  occupied : new.occupied = old.occupied
  key : new.key = old.key
  basePayload : new.basePayload = old.basePayload
  residualPayload : new.residualPayload = old.residualPayload
  baseLogical : new.baseLogical = old.baseLogical
  baseCharge : new.baseCharge = old.baseCharge
  residualLogical : new.residualLogical = old.residualLogical
  residualCharge : new.residualCharge = old.residualCharge
  residualRead : new.residualRead = old.residualRead
  hasResidual : new.hasResidual = old.hasResidual
  queue : old.queue = .cold ∨ old.queue = .hot → new.queue = .cold ∨ new.queue = .hot
  access : old.lastAccess ≠ 0 → new.lastAccess ≠ 0
  order : old.admissionOrder ≠ 0 → new.admissionOrder ≠ 0
  unused : old.residualPrefetchedUnused = false → new.residualPrefetchedUnused = false
  planned : old.plannedBaseEvict = false → new.plannedBaseEvict = false

theorem retouched_refl (entry : CacheEntry) : Retouched entry entry :=
  ⟨rfl, rfl, rfl, rfl, rfl, rfl, rfl, rfl, rfl, rfl, id, id, id, id, id⟩

theorem retouched_trans {a b c : CacheEntry} (first : Retouched a b) (second : Retouched b c) : Retouched a c :=
  ⟨second.occupied.trans first.occupied, second.key.trans first.key,
    second.basePayload.trans first.basePayload, second.residualPayload.trans first.residualPayload,
    second.baseLogical.trans first.baseLogical, second.baseCharge.trans first.baseCharge,
    second.residualLogical.trans first.residualLogical, second.residualCharge.trans first.residualCharge,
    second.residualRead.trans first.residualRead, second.hasResidual.trans first.hasResidual,
    second.queue ∘ first.queue, second.access ∘ first.access, second.order ∘ first.order,
    second.unused ∘ first.unused, second.planned ∘ first.planned⟩

structure SameTotals (old new : EcacheStats) : Prop where
  budget : new.budgetBytes = old.budgetBytes
  metadata : new.metadataBytes = old.metadataBytes
  payload : new.payloadBytes = old.payloadBytes
  base : new.baseBytes = old.baseBytes
  residual : new.residualBytes = old.residualBytes
  peak : new.peakPayloadBytes = old.peakPayloadBytes
  entries : new.entries = old.entries

theorem same_totals_refl (stats : EcacheStats) : SameTotals stats stats :=
  ⟨rfl, rfl, rfl, rfl, rfl, rfl, rfl⟩

theorem retouched_valid {config : EcacheConfig} {old new : CacheEntry} (touched : Retouched old new)
    (valid : EntryValid config old) : EntryValid config new where
  layer := touched.key ▸ valid.layer
  payload := touched.basePayload ▸ valid.payload
  logical := touched.baseLogical ▸ valid.logical
  charge := by rw [touched.baseLogical, touched.baseCharge]; exact valid.charge
  queue := touched.queue valid.queue
  access := touched.access valid.access
  order := touched.order valid.order
  residual live := by
    have was := valid.residual (touched.hasResidual ▸ live)
    exact ⟨touched.residualPayload ▸ was.payload, touched.residualLogical ▸ was.logical,
      by rw [touched.residualLogical, touched.residualCharge]; exact was.charge,
      by rw [touched.residualPayload, touched.basePayload]; exact was.separate⟩
  bare none := by
    have was := valid.bare (touched.hasResidual ▸ none)
    exact ⟨touched.residualPayload ▸ was.payload, touched.residualLogical ▸ was.logical,
      touched.residualCharge ▸ was.charge, touched.residualRead ▸ was.read, touched.unused was.unused⟩

theorem retouched_carries {old new : CacheEntry} (touched : Retouched old new) (payload : Handle) :
    CarriesHandle new payload ↔ CarriesHandle old payload := by
  simp only [CarriesHandle, touched.occupied, touched.basePayload, touched.hasResidual, touched.residualPayload]

theorem retouch_inv {c : ExpertCache} (inv : Inv c) (entries : Nat → CacheEntry) (clock : UInt64)
    (stats : EcacheStats) (touched : ∀ i, Retouched (c.entries i) (entries i)) (totals : SameTotals c.stats stats) :
    Inv { c with entries := entries, clock := clock, stats := stats } := by
  have measured : ∀ measure : CacheEntry → Nat, (∀ old new, Retouched old new → measure new = measure old) →
      total c.config.maxEntries.toNat entries measure = total c.config.maxEntries.toNat c.entries measure :=
    fun measure same => total_congr _ _ _ _ (fun i _ => same _ _ (touched i))
  have onBase : ∀ old new, Retouched old new → baseOf new = baseOf old := by
    intro old new same; simp [baseOf, same.occupied, same.baseCharge]
  have onResidual : ∀ old new, Retouched old new → residualOf new = residualOf old := by
    intro old new same; simp [residualOf, same.occupied, same.hasResidual, same.residualCharge]
  have onCount : ∀ old new, Retouched old new → countOf new = countOf old := by
    intro old new same; simp [countOf, same.occupied]
  have onResiduals : ∀ old new, Retouched old new → residualCountOf new = residualCountOf old := by
    intro old new same; simp [residualCountOf, same.occupied, same.hasResidual]
  have layered : ∀ l measure, (∀ old new, Retouched old new → measure new = measure old) →
      ∀ old new, Retouched old new → onLayer l measure new = onLayer l measure old := by
    intro l measure same old new touch
    simp [onLayer, touch.key, same old new touch]
  refine ⟨inv.magic, inv.release, inv.alignment, inv.sizes, totals.budget.trans inv.budget,
    totals.metadata.trans inv.metadata, ⟨?_, ?_, ?_⟩, ?_, ?_,
    fun i inside => (touched i).planned (inv.unplanned i inside), inv.exact⟩
  · intro i inside live
    exact retouched_valid (touched i) (inv.entries.valid i inside ((touched i).occupied ▸ live))
  · intro i insideI j insideJ liveI liveJ same
    rw [(touched i).key, (touched j).key] at same
    exact inv.entries.keys i insideI j insideJ ((touched i).occupied ▸ liveI) ((touched j).occupied ▸ liveJ) same
  · intro i insideI j insideJ payload carriesI carriesJ
    exact inv.entries.handles i insideI j insideJ payload ((retouched_carries (touched i) payload).mp carriesI)
      ((retouched_carries (touched j) payload).mp carriesJ)
  · exact index_congr inv.sizes inv.index
      (fun i _ => ⟨(touched i).occupied.symm, (touched i).key.symm⟩)
  · have was := inv.usage
    refine ⟨?_, ?_, ?_, ?_, totals.entries.trans was.counted, fun l bound => ?_, ?_, ?_⟩
    · rw [totals.base, measured baseOf onBase]; exact was.base
    · rw [totals.residual, measured residualOf onResidual]; exact was.residual
    · rw [totals.payload, totals.base, totals.residual]; exact was.payload
    · rw [measured countOf onCount]; exact was.count
    · have ofLayer := was.layer l bound
      refine ⟨?_, ?_, ?_, ?_⟩
      · rw [measured _ (layered l _ onBase)]; exact ofLayer.baseBytes
      · rw [measured _ (layered l _ onResidual)]; exact ofLayer.residualBytes
      · rw [measured _ (layered l _ onCount)]; exact ofLayer.baseEntries
      · rw [measured _ (layered l _ onResiduals)]; exact ofLayer.residualEntries
    · rw [totals.payload, totals.peak]; exact was.peak
    · rw [totals.peak]; exact was.peakBudget

-- `d` is `c` with entries retouched, the clock moved, telemetry counted and plan totals
-- rewritten: all that a call can do besides admitting and releasing.
def Retouches (c d : ExpertCache) : Prop :=
  ∃ entries clock stats layers,
    d = { c with entries := entries, clock := clock, stats := stats, layers := layers } ∧
    (∀ i, Retouched (c.entries i) (entries i)) ∧ SameTotals c.stats stats ∧
    ∀ l, planless (layers l) = planless (c.layers l)

theorem retouches_refl (c : ExpertCache) : Retouches c c :=
  ⟨c.entries, c.clock, c.stats, c.layers, rfl, fun _ => retouched_refl _, same_totals_refl _, fun _ => rfl⟩

theorem retouches_trans {c d e : ExpertCache} (first : Retouches c d) (second : Retouches d e) : Retouches c e := by
  obtain ⟨_, _, _, _, rfl, touched, totals, planned⟩ := first
  obtain ⟨entries, clock, stats, layers, rfl, again, more, later⟩ := second
  exact ⟨entries, clock, stats, layers, rfl, fun i => retouched_trans (touched i) (again i),
    ⟨more.budget.trans totals.budget, more.metadata.trans totals.metadata, more.payload.trans totals.payload,
      more.base.trans totals.base, more.residual.trans totals.residual, more.peak.trans totals.peak,
      more.entries.trans totals.entries⟩, fun l => (later l).trans (planned l)⟩

theorem retouches_inv {c d : ExpertCache} (inv : Inv c) (touched : Retouches c d) : Inv d := by
  obtain ⟨entries, clock, stats, layers, rfl, same, totals, planned⟩ := touched
  exact planless_inv (retouch_inv inv entries clock stats same totals) layers planned

theorem retouches_used (c : ExpertCache) (s : Nat) (entry : CacheEntry) (stats : EcacheStats)
    (touched : Retouched (c.entries s) entry) (totals : SameTotals c.stats stats) :
    Retouches c { c with entries := write c.entries s entry, stats := stats } := by
  refine ⟨write c.entries s entry, c.clock, stats, c.layers, rfl, fun i => ?_, totals, fun _ => rfl⟩
  by_cases here : i = s
  · subst here
    rwa [write_same]
  · rw [write_other _ _ _ _ here]
    exact retouched_refl _

theorem retouches_entry (c : ExpertCache) (s : Nat) (entry : CacheEntry)
    (touched : Retouched (c.entries s) entry) : Retouches c { c with entries := write c.entries s entry } :=
  retouches_used c s entry c.stats touched (same_totals_refl _)

theorem retouches_stats (c : ExpertCache) (stats : EcacheStats) (totals : SameTotals c.stats stats) :
    Retouches c { c with stats := stats } :=
  ⟨c.entries, c.clock, stats, c.layers, rfl, fun _ => retouched_refl _, totals, fun _ => rfl⟩

theorem halved_ne_zero (value : UInt64) : (value >>> 1) + 1 ≠ 0 := by
  rw [u64_ne_zero, UInt64.toNat_add, UInt64.toNat_shiftRight, UInt64.toNat_one]
  have bound := value.toNat_lt
  have half : value.toNat >>> (1 % 64) = value.toNat / 2 := Nat.shiftRight_eq_div_pow _ 1
  rw [half]
  omega

theorem halve_clock_retouched (entry : CacheEntry) : Retouched entry (halveClock entry) := by
  unfold halveClock
  split
  · exact ⟨rfl, rfl, rfl, rfl, rfl, rfl, rfl, rfl, rfl, rfl, id, fun _ => halved_ne_zero _, fun _ => halved_ne_zero _, id, id⟩
  · exact retouched_refl entry

theorem next_clock_spec (c : ExpertCache) :
    Retouches c (nextClock c).1 ∧ (nextClock c).2 ≠ 0 ∧ (nextClock c).1.stats = c.stats := by
  have ticked : ∀ clock : UInt64, clock ≠ UInt64.ofNat (2 ^ 64 - 1) → clock + 1 ≠ 0 := by
    intro clock below
    rw [u64_ne_zero]
    have bound := clock.toNat_lt
    have notMax : clock.toNat ≠ 2 ^ 64 - 1 := fun same => below (UInt64.toNat_inj.mp same)
    rw [u64_add _ _ (by rw [UInt64.toNat_one]; omega)]
    simp
  have halfway : (c.clock >>> 1) + 1 ≠ UInt64.ofNat (2 ^ 64 - 1) := by
    intro same
    have number := congrArg UInt64.toNat same
    have bound := c.clock.toNat_lt
    have half : c.clock.toNat >>> (1 % 64) = c.clock.toNat / 2 := Nat.shiftRight_eq_div_pow _ 1
    have whole : (UInt64.ofNat (2 ^ 64 - 1)).toNat = 2 ^ 64 - 1 := rfl
    rw [whole, UInt64.toNat_add, UInt64.toNat_shiftRight, UInt64.toNat_one, half] at number
    omega
  unfold nextClock
  split
  · refine ⟨⟨_, _, c.stats, c.layers, rfl, fun i => ?_, same_totals_refl _, fun _ => rfl⟩, ticked _ halfway, rfl⟩
    dsimp only
    split
    · exact halve_clock_retouched _
    · exact retouched_refl _
  · rename_i below
    exact ⟨⟨c.entries, _, c.stats, c.layers, rfl, fun _ => retouched_refl _, same_totals_refl _, fun _ => rfl⟩, ticked _ below, rfl⟩

theorem touch_entry_retouches (c : ExpertCache) (slot : Nat) : Retouches c (touchEntry c slot) := by
  unfold touchEntry
  dsimp only
  generalize usedEq : ({ c with
    stats := { c.stats with
      baseHits := satInc c.stats.baseHits
      baseBytesAvoided := satAdd c.stats.baseBytesAvoided (c.entries slot).baseRead }
    entries := write c.entries slot { c.entries slot with basePrefetchedUnused := false } } : ExpertCache) = used
  have first : Retouches c used := by
    rw [← usedEq]
    exact retouches_trans
      (retouches_entry c slot { c.entries slot with basePrefetchedUnused := false }
        ⟨rfl, rfl, rfl, rfl, rfl, rfl, rfl, rfl, rfl, rfl, id, id, id, id, id⟩)
      (retouches_stats _ _ ⟨rfl, rfl, rfl, rfl, rfl, rfl, rfl⟩)
  obtain ⟨ticks, nonzero, _⟩ := next_clock_spec used
  refine retouches_trans first (retouches_trans ticks (retouches_entry _ slot _ ?_))
  refine ⟨rfl, rfl, rfl, rfl, rfl, rfl, rfl, rfl, rfl, rfl, fun queue => ?_, fun _ => nonzero, id, id, id⟩
  dsimp only
  split
  · exact .inr rfl
  · exact queue

theorem get_retouches (c : ExpertCache) (key : EcacheKey) (requirement : EcacheRequirement) (out : Bool) :
    Retouches c (ecacheGet c key requirement out).1 := by
  unfold ecacheGet
  split
  · exact retouches_refl c
  · split
    · exact retouches_refl c
    · split
      · exact retouches_refl c
      · cases hashFind c key with
        | missing bucket => exact retouches_stats c _ ⟨rfl, rfl, rfl, rfl, rfl, rfl, rfl⟩
        | found bucket slot =>
          have touched := touch_entry_retouches c slot
          dsimp only
          split
          · split
            · exact retouches_trans touched (retouches_stats _ _ ⟨rfl, rfl, rfl, rfl, rfl, rfl, rfl⟩)
            · exact retouches_trans touched (retouches_used (touchEntry c slot) slot _ _
                ⟨rfl, rfl, rfl, rfl, rfl, rfl, rfl, rfl, rfl, rfl, id, id, id, fun _ => rfl, id⟩
                ⟨rfl, rfl, rfl, rfl, rfl, rfl, rfl⟩)
          · exact touched

theorem peek_same (c : ExpertCache) (key : EcacheKey) (out : Bool) : (ecachePeek c key out).1 = c := by
  unfold ecachePeek
  split
  · rfl
  · split
    · rfl
    · cases hashFind c key <;> rfl

def Repins (c d : ExpertCache) : Prop :=
  d = c ∨ ∃ slot count, d = { c with entries := write c.entries slot { c.entries slot with pinCount := count } }

theorem pin_repins (c : ExpertCache) (key : EcacheKey) : Repins c (ecachePin c key).1 := by
  unfold ecachePin
  split_ifs
  · exact .inl rfl
  · exact .inl rfl
  cases hashFind c key with
  | missing bucket => exact .inl rfl
  | found bucket slot =>
    dsimp only
    split
    · exact .inl rfl
    · exact .inr ⟨slot, _, rfl⟩

theorem unpin_repins (c : ExpertCache) (key : EcacheKey) : Repins c (ecacheUnpin c key).1 := by
  unfold ecacheUnpin
  split_ifs
  · exact .inl rfl
  · exact .inl rfl
  cases hashFind c key with
  | missing bucket => exact .inl rfl
  | found bucket slot =>
    dsimp only
    split
    · exact .inl rfl
    · exact .inr ⟨slot, _, rfl⟩

theorem repins_retouches {c d : ExpertCache} (repins : Repins c d) : Retouches c d := by
  obtain rfl | ⟨slot, count, rfl⟩ := repins
  · exact retouches_refl _
  · exact retouches_entry c slot _ ⟨rfl, rfl, rfl, rfl, rfl, rfl, rfl, rfl, rfl, rfl, id, id, id, id, id⟩

end SamosaChat.Ecache
