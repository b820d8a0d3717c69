import SamosaChat.Ecache.Outcomes

set_option autoImplicit false

namespace SamosaChat.Ecache

open Slots Words

theorem room_for (bytes charge : UInt64) (fits : bytes.toNat + charge.toNat < 2 ^ 64) :
    decide (sizeMax - bytes < charge) = false := by
  have whole : sizeMax.toNat = 2 ^ 64 - 1 := by decide
  rw [u64_not_lt, u64_sub _ _ (by omega), whole]
  omega

theorem charge_is {config : EcacheConfig} {logical charge : UInt64}
    (charged : payloadCharge config logical = .ok charge) : chargeIs config logical charge = true := by
  simp [chargeIs, charged]

variable {c : ExpertCache}

theorem validate_residual_spec (inv : Inv c) (i : Nat) (inside : i < c.config.maxEntries.toNat)
    (occupied : (c.entries i).occupied) (bytes : UInt64) (fits : bytes.toNat + residualOf (c.entries i) < 2 ^ 64) :
    ∃ next, validateResidual c (c.entries i) bytes = some next ∧ next.toNat = bytes.toNat + residualOf (c.entries i) := by
  have valid := inv.entries.valid i inside occupied
  by_cases residual : (c.entries i).hasResidual
  · have good := valid.residual residual
    simp only [residualOf, occupied, residual, Bool.and_self, if_true] at fits ⊢
    refine ⟨bytes + (c.entries i).residualCharge, ?_, u64_add _ _ fits⟩
    simp [validateResidual, residual, good.payload, good.logical, good.separate, charge_is good.charge,
      of_decide_eq_false (room_for _ _ fits)]
  · have good := valid.bare residual
    refine ⟨bytes, ?_, by simp [residualOf, residual]⟩
    simp [validateResidual, residual, good.payload, good.logical, good.charge, good.read, good.unused]

theorem slot_found (inv : Inv c) (i : Nat) (inside : i < c.config.maxEntries.toNat)
    (occupied : (c.entries i).occupied) : slotFound c i = true := by
  obtain ⟨b, _, _, found⟩ := hash_find_occupied c i inv.sizes inv.index inside occupied
  simp [slotFound, found]

theorem count_one (size b : Nat) (inside : b < size) (p : Nat → Bool) (only : ∀ x < size, p x = true ↔ x = b) :
    (List.range size).countP p = 1 := by
  have same : (List.range size).countP p = (List.range size).countP (· == b) := by
    apply List.countP_congr
    intro x member
    rw [only x (List.mem_range.mp member), beq_iff_eq]
  rw [same]
  exact List.count_eq_one_of_mem List.nodup_range (List.mem_range.mpr inside)

theorem referenced_once (inv : Inv c) (i : Nat) (inside : i < c.config.maxEntries.toNat) (occupied : (c.entries i).occupied) :
    (List.range c.bucketCount.toNat).countP (fun j => c.buckets j == .slot i) = 1 := by
  obtain ⟨b, bound, here⟩ := inv.index.indexed i inside inside occupied
  refine count_one _ b bound _ (fun x within => ?_)
  rw [beq_iff_eq]
  exact ⟨fun at_ => bucket_unique inv.index x b i within bound at_ here, fun same => same ▸ here⟩

theorem no_clash (inv : Inv c) (i j : Nat) (insideI : i < c.config.maxEntries.toNat)
    (insideJ : j < c.config.maxEntries.toNat) (occupied : (c.entries i).occupied) (before : i < j) :
    entriesClash (c.entries i) (c.entries j) = false := by
  by_cases live : (c.entries j).occupied
  · have distinct : (c.entries i).key ≠ (c.entries j).key := by
      intro same
      have equal := inv.entries.keys i insideI j insideJ occupied live same
      omega
    have apart : ∀ payload, CarriesHandle (c.entries i) payload → ¬ CarriesHandle (c.entries j) payload := by
      intro payload carriesI carriesJ
      have equal := inv.entries.handles i insideI j insideJ payload carriesI carriesJ
      omega
    have base := apart (c.entries i).basePayload ⟨occupied, .inl rfl⟩
    simp only [CarriesHandle, live, true_and, not_or, not_and] at base
    have baseOther : (c.entries i).basePayload ≠ (c.entries j).basePayload := fun same => base.1 same.symm
    have baseResidual : (c.entries j).hasResidual → (c.entries i).basePayload ≠ (c.entries j).residualPayload :=
      fun residual same => base.2 residual same.symm
    by_cases residual : (c.entries i).hasResidual
    · have low := apart (c.entries i).residualPayload ⟨occupied, .inr ⟨residual, rfl⟩⟩
      simp only [CarriesHandle, live, true_and, not_or, not_and] at low
      have lowOther : (c.entries i).residualPayload ≠ (c.entries j).basePayload := fun same => low.1 same.symm
      have lowResidual :
          (c.entries j).hasResidual → (c.entries i).residualPayload ≠ (c.entries j).residualPayload :=
        fun other same => low.2 other same.symm
      by_cases other : (c.entries j).hasResidual
      · simp [entriesClash, distinct, baseOther, baseResidual other, residual, lowOther, lowResidual other]
      · simp [entriesClash, distinct, baseOther, other, residual, lowOther]
    · by_cases other : (c.entries j).hasResidual
      · simp [entriesClash, distinct, baseOther, baseResidual other, residual]
      · simp [entriesClash, distinct, baseOther, other, residual]
  · simp [entriesClash, live]

theorem validate_slot_spec (inv : Inv c) (t : Tally) (i : Nat) (inside : i < c.config.maxEntries.toNat)
    (baseFits : t.baseBytes.toNat + baseOf (c.entries i) < 2 ^ 64)
    (residualFits : t.residualBytes.toNat + residualOf (c.entries i) < 2 ^ 64) (countFits : t.occupied.toNat + 1 < 2 ^ 32) :
    ∃ next, validateSlot c t i = some next ∧ next.baseBytes.toNat = t.baseBytes.toNat + baseOf (c.entries i) ∧
      next.residualBytes.toNat = t.residualBytes.toNat + residualOf (c.entries i) ∧
      next.occupied.toNat = t.occupied.toNat + countOf (c.entries i) := by
  by_cases occupied : (c.entries i).occupied
  · have valid := inv.entries.valid i inside occupied
    obtain ⟨residualBytes, residual, residualEq⟩ :=
      validate_residual_spec inv i inside occupied t.residualBytes residualFits
    have clashes : ((List.range c.slotCount).any fun j => decide (i < j) && entriesClash (c.entries i) (c.entries j))
        = false := by
      rw [List.any_eq_false]
      intro j member
      by_cases before : i < j
      · simp [no_clash inv i j inside (List.mem_range.mp member) occupied before]
      · simp [before]
    have layer : ¬ (c.entries i).key.layer ≥ c.config.layerCount := by
      have bound := valid.layer
      rw [ge_iff_le, UInt32.le_iff_toNat_le]
      omega
    have queue : ¬ ((c.entries i).queue ≠ .cold ∧ (c.entries i).queue ≠ .hot) := by
      rcases valid.queue with cold | hot
      · simp [cold]
      · simp [hot]
    simp only [baseOf, occupied, if_true] at baseFits
    have one := u32_add t.occupied 1 (by rw [UInt32.toNat_one]; exact countFits)
    rw [UInt32.toNat_one] at one
    refine ⟨⟨t.baseBytes + (c.entries i).baseCharge, residualBytes, t.occupied + 1⟩, ?_, ?_, residualEq, ?_⟩
    · simp only [validateSlot, occupied, Bool.not_true, Bool.false_eq_true, if_false, decide_eq_false layer,
        valid.payload, valid.logical, valid.access, valid.order, inv.unplanned i inside,
        charge_is valid.charge, room_for _ _ baseFits, residual, slot_found inv i inside occupied,
        referenced_once inv i inside occupied, clashes, decide_false, Bool.or_false, Bool.false_or,
        ne_eq, not_true_eq_false]
      rcases valid.queue with cold | hot
      · simp [cold]
      · simp [hot]
    · rw [u64_add _ _ baseFits]
      simp [baseOf, occupied]
    · simp [countOf, occupied, one]
  · exact ⟨t, by simp [validateSlot, occupied], by simp [baseOf, occupied], by simp [residualOf, occupied],
      by simp [countOf, occupied]⟩

theorem validate_prefix (inv : Inv c) (upto : Nat) (bound : upto ≤ c.config.maxEntries.toNat) :
    ∃ t, (List.range upto).foldlM (validateSlot c) {} = some t ∧ t.baseBytes.toNat = total upto c.entries baseOf ∧
      t.residualBytes.toNat = total upto c.entries residualOf ∧ t.occupied.toNat = total upto c.entries countOf := by
  induction upto with
  | zero => exact ⟨{}, rfl, rfl, rfl, rfl⟩
  | succ upto ih =>
    obtain ⟨t, reached, base, residual, count⟩ := ih (by omega)
    have baseBound := total_prefix _ _ c.entries baseOf bound
    have residualBound := total_prefix _ _ c.entries residualOf bound
    have countBound := total_le_count upto c.entries countOf (fun entry => by unfold countOf; split <;> omega)
    rw [total_succ, ← inv.usage.base] at baseBound
    rw [total_succ, ← inv.usage.residual] at residualBound
    have baseSize := c.stats.baseBytes.toNat_lt
    have residualSize := c.stats.residualBytes.toNat_lt
    have half := inv.sizes.half
    have size := c.bucketCount.toNat_lt
    obtain ⟨next, stepped, nextBase, nextResidual, nextCount⟩ :=
      validate_slot_spec inv t upto bound (by omega) (by omega) (by omega)
    refine ⟨next, ?_, ?_, ?_, ?_⟩
    · rw [List.range_succ, List.foldlM_append, reached]
      simp [stepped]
    · rw [nextBase, base, total_succ]
    · rw [nextResidual, residual, total_succ]
    · rw [nextCount, count, total_succ]

theorem buckets_sound (inv : Inv c) (b : Nat) (inside : b < c.bucketCount.toNat) : bucketSound c b = true := by
  unfold bucketSound
  cases here : c.buckets b with
  | empty => rfl
  | tombstone => rfl
  | slot s =>
    obtain ⟨_, within, occupied⟩ := inv.index.refers b inside s here
    simp [ExpertCache.slotCount, within, occupied]

theorem tally_layer_step (l : Nat) (t : LayerTally) (j : Nat) (baseFits : t.base.toNat + onLayer l baseOf (c.entries j) < 2 ^ 64)
    (residualFits : t.residual.toNat + onLayer l residualOf (c.entries j) < 2 ^ 64)
    (countFits : t.entries.toNat + 1 < 2 ^ 32) (residualCountFits : t.residualEntries.toNat + 1 < 2 ^ 32) :
    (tallyLayer c l t j).base.toNat = t.base.toNat + onLayer l baseOf (c.entries j) ∧
      (tallyLayer c l t j).residual.toNat = t.residual.toNat + onLayer l residualOf (c.entries j) ∧
      (tallyLayer c l t j).entries.toNat = t.entries.toNat + onLayer l countOf (c.entries j) ∧
      (tallyLayer c l t j).residualEntries.toNat = t.residualEntries.toNat + onLayer l residualCountOf (c.entries j) := by
  have one := u32_add t.entries 1 (by rw [UInt32.toNat_one]; exact countFits)
  have two := u32_add t.residualEntries 1 (by rw [UInt32.toNat_one]; exact residualCountFits)
  rw [UInt32.toNat_one] at one two
  unfold tallyLayer
  dsimp only
  by_cases occupied : (c.entries j).occupied
  · by_cases here : (c.entries j).key.layer.toNat = l
    · by_cases residual : (c.entries j).hasResidual
      · simp only [onLayer, here, if_true, baseOf, residualOf, occupied, residual, Bool.and_self] at baseFits residualFits
        simp [occupied, here, residual, onLayer, baseOf, residualOf, countOf, residualCountOf, one, two,
          u64_add _ _ baseFits, u64_add _ _ residualFits]
      · simp only [onLayer, here, if_true, baseOf, occupied] at baseFits
        simp [occupied, here, residual, onLayer, baseOf, residualOf, countOf, residualCountOf, one, u64_add _ _ baseFits]
    · simp [here, onLayer]
  · simp [occupied, onLayer, baseOf, residualOf, countOf, residualCountOf]

theorem layer_sound (inv : Inv c) (l : Nat) (bound : l < c.config.layerCount.toNat) : layerSound c l = true := by
  have usage := inv.usage.layer l bound
  have half := inv.sizes.half
  have size := c.bucketCount.toNat_lt
  have tallied : ∀ upto ≤ c.config.maxEntries.toNat,
      ((List.range upto).foldl (tallyLayer c l) {}).base.toNat = total upto c.entries (onLayer l baseOf) ∧
      ((List.range upto).foldl (tallyLayer c l) {}).residual.toNat = total upto c.entries (onLayer l residualOf) ∧
      ((List.range upto).foldl (tallyLayer c l) {}).entries.toNat = total upto c.entries (onLayer l countOf) ∧
      ((List.range upto).foldl (tallyLayer c l) {}).residualEntries.toNat =
        total upto c.entries (onLayer l residualCountOf) := by
    intro upto
    induction upto with
    | zero => exact fun _ => ⟨rfl, rfl, rfl, rfl⟩
    | succ upto ih =>
      intro within
      obtain ⟨base, residual, count, residualCount⟩ := ih (by omega)
      have baseBound := total_prefix _ _ c.entries (onLayer l baseOf) within
      have residualBound := total_prefix _ _ c.entries (onLayer l residualOf) within
      have countBound := total_le_count upto c.entries (onLayer l countOf)
        (fun entry => (on_layer_le l countOf entry).trans (by unfold countOf; split <;> omega))
      have residualCountBound := total_le_count upto c.entries (onLayer l residualCountOf)
        (fun entry => (on_layer_le l residualCountOf entry).trans (by unfold residualCountOf; split <;> omega))
      rw [total_succ, ← usage.baseBytes] at baseBound
      rw [total_succ, ← usage.residualBytes] at residualBound
      have baseSize := (c.layers l).baseBytes.toNat_lt
      have residualSize := (c.layers l).residualBytes.toNat_lt
      rw [List.range_succ, List.foldl_append, List.foldl_cons, List.foldl_nil]
      obtain ⟨nextBase, nextResidual, nextCount, nextResidualCount⟩ :=
        tally_layer_step (c := c) l ((List.range upto).foldl (tallyLayer c l) {}) upto
          (by omega) (by omega) (by omega) (by omega)
      simp only [total_succ]
      exact ⟨by omega, by omega, by omega, by omega⟩
  obtain ⟨base, residual, count, residualCount⟩ := tallied _ (Nat.le_refl _)
  rw [← usage.baseBytes, UInt64.toNat_inj] at base
  rw [← usage.residualBytes, UInt64.toNat_inj] at residual
  rw [← usage.baseEntries, UInt32.toNat_inj] at count
  rw [← usage.residualEntries, UInt32.toNat_inj] at residualCount
  unfold layerSound ExpertCache.slotCount
  rw [beq_iff_eq, ← base, ← residual, ← count, ← residualCount]

theorem power_masked {slots : Nat} {bucketCount : UInt32} (sizes : SizesOk slots bucketCount) :
    bucketCount ≠ 0 ∧ bucketCount &&& (bucketCount - 1) = 0 := by
  obtain ⟨k, _, power⟩ := sizes.power
  have positive : 1 ≤ 2 ^ k := Nat.one_le_two_pow
  refine ⟨by rw [u32_ne_zero]; omega, ?_⟩
  rw [← UInt32.toNat_inj, UInt32.toNat_and, u32_sub _ 1 (by rw [UInt32.toNat_one]; omega), UInt32.toNat_one, power,
    Nat.and_two_pow_sub_one_eq_mod, Nat.mod_self, UInt32.toNat_zero]

theorem validate_ok (inv : Inv c) : ecacheValidate c = .ok := by
  obtain ⟨nonzero, masked⟩ := power_masked inv.sizes
  have half := inv.sizes.half
  have size := c.bucketCount.toNat_lt
  have wide : ¬ c.bucketCount < c.config.maxEntries * 2 := by
    have two : (2 : UInt32).toNat = 2 := rfl
    rw [UInt32.lt_iff_toNat_lt, UInt32.toNat_mul, two, Nat.mod_eq_of_lt (by omega)]
    omega
  obtain ⟨t, folded, base, residual, count⟩ := validate_prefix inv c.config.maxEntries.toNat (Nat.le_refl _)
  have usage := inv.usage
  rw [← usage.base, UInt64.toNat_inj] at base
  rw [← usage.residual, UInt64.toNat_inj] at residual
  rw [← usage.count, UInt32.toNat_inj] at count
  have payloadSize := c.stats.payloadBytes.toNat_lt
  have sum := usage.payload
  have added : c.stats.baseBytes + c.stats.residualBytes = c.stats.payloadBytes := by
    rw [← UInt64.toNat_inj, u64_add _ _ (by omega), sum]
  have inBudget := payload_in_budget inv
  have sound : totalsSound c t = true := by
    simp only [totalsSound, base, residual, count, usage.counted, beq_self_eq_true, Bool.true_and, added,
      room_for c.stats.baseBytes c.stats.residualBytes (by omega), Bool.not_false]
    simp [(u64_not_lt _ _).mpr inBudget, (u64_not_lt _ _).mpr usage.peak, (u64_not_lt _ _).mpr usage.peakBudget]
  have buckets : (List.range c.bucketCount.toNat).all (bucketSound c) = true :=
    List.all_eq_true.mpr (fun b member => buckets_sound inv b (List.mem_range.mp member))
  have layers : (List.range c.config.layerCount.toNat).all (layerSound c) = true :=
    List.all_eq_true.mpr (fun l member => layer_sound inv l (List.mem_range.mp member))
  simp [ecacheValidate, cacheValid, inv.magic, inv.release, nonzero, masked, wide, inv.budget, inv.metadata,
    ExpertCache.slotCount, folded, buckets, sound, layers]

end SamosaChat.Ecache
