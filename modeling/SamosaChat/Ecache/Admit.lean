import SamosaChat.Ecache.Preserve

set_option autoImplicit false

namespace SamosaChat.Ecache

open Slots Words Probing

variable {c : ExpertCache}

variable {bucket : Nat} {d : ExpertCache} {key : EcacheKey} {request : Admission}

theorem hash_find_congr (key : EcacheKey) (slots : d.slotCount = c.slotCount)
    (count : d.bucketCount = c.bucketCount) (buckets : d.buckets = c.buckets)
    (same : ∀ i, (d.entries i).occupied = (c.entries i).occupied ∧ (d.entries i).key = (c.entries i).key) :
    hashFind d key = hashFind c key := by
  have loop : ∀ rounds probe free,
      hashFindLoop d key rounds probe free = hashFindLoop c key rounds probe free := by
    intro rounds
    induction rounds with
    | zero => intro probe free; rfl
    | succ rounds ih =>
      intro probe free
      simp only [hashFindLoop, slots, count, buckets, ih, (same _).1, (same _).2]
  rw [hashFind, hashFind, count, loop]

theorem retouches_find (touched : Retouches c d) (key : EcacheKey) : hashFind d key = hashFind c key := by
  obtain ⟨entries, clock, stats, layers, rfl, same, _, _⟩ := touched
  exact hash_find_congr key rfl rfl rfl (fun i => ⟨(same i).occupied, (same i).key⟩)

theorem hash_find_missing {tombstones : UInt32} (c : ExpertCache) (key : EcacheKey) (bucket : Option Nat)
    (sizes : SizesOk c.slotCount c.bucketCount) (index : IndexOk c.slotCount c.bucketCount c.entries c.buckets tombstones)
    (missing : hashFind c key = .missing bucket) : ∀ s < c.slotCount, (c.entries s).occupied → (c.entries s).key ≠ key := by
  intro s inside occupied same
  obtain ⟨b, _, _, found⟩ := hash_find_occupied c s sizes index inside occupied
  rw [same, missing] at found
  cases found

theorem payload_unused {payload : Handle} (unused : payloadInUse c payload = false) :
    ∀ i < c.slotCount, ¬ CarriesHandle (c.entries i) payload := by
  intro i inside carries
  have none := List.any_eq_false.mp unused i (List.mem_range.mpr inside)
  obtain ⟨occupied, base | ⟨residual, held⟩⟩ := carries
  · simp [occupied, base] at none
  · simp [occupied, residual, held] at none

theorem index_admit {slots : Nat} {bucketCount tombstones : UInt32} {entries : Nat → CacheEntry}
    {buckets : Nat → Bucket} (sizes : SizesOk slots bucketCount) (index : IndexOk slots bucketCount entries buckets tombstones)
    (b s : Nat) (bound : b < bucketCount.toNat) (inside : s < slots)
    (vacant : (entries s).occupied = false) (entry : CacheEntry) (live : entry.occupied)
    (free : buckets b = .tombstone ∨ buckets b = .empty)
    (fresh : ¬ Holds bucketCount.toNat (fun b => cellOf entries (buckets b)) entry.key)
    (chain : ∃ i < bucketCount.toNat, probeBucket bucketCount entry.key i = b ∧
      ∀ j < i, cellOf entries (buckets (probeBucket bucketCount entry.key j)) ≠ .vacant) :
    (buckets b = .tombstone → 1 ≤ tombstones.toNat) ∧
      IndexOk slots bucketCount (write entries s entry) (write buckets b (.slot s))
        (if buckets b = .tombstone then tombstones - 1 else tombstones) := by
  have counted := total_write bucketCount.toNat buckets tombstoneOf b (.slot s) bound
  have marks := index.marks
  have one : buckets b = .tombstone → 1 ≤ tombstones.toNat := by
    intro mark
    have held := measure_le_total bucketCount.toNat buckets tombstoneOf b bound
    simp only [mark, tombstoneOf] at held
    omega
  have unreferred : ∀ x < bucketCount.toNat, buckets x ≠ .slot s := by
    intro x within here
    have occupied := (index.refers x within s here).2.2
    rw [vacant] at occupied
    cases occupied
  -- The vacant slot is in no bucket, so the cells already read as the new entries give them.
  have cells : ∀ x < bucketCount.toNat,
      cellOf entries (buckets x) = cellOf (write entries s entry) (buckets x) := by
    intro x within
    cases here : buckets x with
    | empty => rfl
    | tombstone => rfl
    | slot t =>
      have other : t ≠ s := fun same => unreferred x within (same ▸ here)
      simp only [cellOf, write_other _ _ _ _ other]
  refine ⟨one, ?_, ?_, ?_, ?_⟩
  · intro x within t here
    by_cases same : x = b
    · simp only [same, write_same, Bucket.slot.injEq] at here
      subst here
      exact ⟨inside, inside, by simpa using live⟩
    · rw [write_other _ _ _ _ same] at here
      obtain ⟨before, bounded, occupied⟩ := index.refers x within t here
      have other : t ≠ s := fun clash => unreferred x within (clash ▸ here)
      exact ⟨before, bounded, by rw [write_other _ _ _ _ other]; exact occupied⟩
  · intro t before within occupied
    by_cases same : t = s
    · exact ⟨b, bound, by simp [same]⟩
    · rw [write_other _ _ _ _ same] at occupied
      obtain ⟨x, inX, here⟩ := index.indexed t before within occupied
      refine ⟨x, inX, ?_⟩
      have other : x ≠ b := by
        rintro rfl
        rcases free with mark | empty
        · rw [mark] at here
          cases here
        · rw [empty] at here
          cases here
      rw [write_other _ _ _ _ other]
      exact here
  · refine well_formed_congr _ (probe_covering sizes) (fun x within => ?_)
      (fill_well_formed index.formed entry.key b fresh
        (by rcases free with here | here <;> simp [here, cellOf]) chain)
    by_cases same : x = b
    · simp [same, cellOf]
    · rw [write_other _ _ _ _ same, write_other _ _ _ _ same]
      exact cells x within
  · split
    · rename_i mark
      have less := u32_sub tombstones 1 (one mark)
      simp only [mark, tombstoneOf] at counted
      simp only [UInt32.toNat_one] at less
      omega
    · rename_i unmarked
      have empty := free.resolve_left unmarked
      simp only [empty, tombstoneOf] at counted
      omega

variable {config : EcacheConfig}

theorem entries_admit {entries : Nat → CacheEntry} (good : EntriesOk config entries)
    (s : Nat) (entry : CacheEntry) (valid : EntryValid config entry)
    (keys : ∀ i < config.maxEntries.toNat, i ≠ s → (entries i).occupied → (entries i).key ≠ entry.key)
    (handles : ∀ i < config.maxEntries.toNat, i ≠ s → ∀ payload, CarriesHandle entry payload →
      ¬ CarriesHandle (entries i) payload) : EntriesOk config (write entries s entry) := by
  refine ⟨?_, ?_, ?_⟩
  · intro i inside live
    by_cases here : i = s
    · subst here
      rw [write_same]
      exact valid
    · rw [write_other _ _ _ _ here] at live ⊢
      exact good.valid i inside live
  · intro i insideI j insideJ liveI liveJ same
    by_cases atI : i = s <;> by_cases atJ : j = s
    · exact atI.trans atJ.symm
    · subst atI
      rw [write_same, write_other _ _ _ _ atJ] at same
      rw [write_other _ _ _ _ atJ] at liveJ
      exact absurd same.symm (keys j insideJ atJ liveJ)
    · subst atJ
      rw [write_same, write_other _ _ _ _ atI] at same
      rw [write_other _ _ _ _ atI] at liveI
      exact absurd same (keys i insideI atI liveI)
    · rw [write_other _ _ _ _ atI] at same liveI
      rw [write_other _ _ _ _ atJ] at same liveJ
      exact good.keys i insideI j insideJ liveI liveJ same
  · intro i insideI j insideJ payload carriesI carriesJ
    by_cases atI : i = s <;> by_cases atJ : j = s
    · exact atI.trans atJ.symm
    · subst atI
      rw [write_same] at carriesI
      rw [write_other _ _ _ _ atJ] at carriesJ
      exact absurd carriesJ (handles j insideJ atJ payload carriesI)
    · subst atJ
      rw [write_same] at carriesJ
      rw [write_other _ _ _ _ atI] at carriesI
      exact absurd carriesI (handles i insideI atI payload carriesJ)
    · rw [write_other _ _ _ _ atI] at carriesI
      rw [write_other _ _ _ _ atJ] at carriesJ
      exact good.handles i insideI j insideJ payload carriesI carriesJ

theorem raised_peak (stats : EcacheStats) : (raisePeak stats).peakPayloadBytes.toNat =
      max stats.payloadBytes.toNat stats.peakPayloadBytes.toNat := by
  unfold raisePeak
  dsimp only
  split
  · rename_i more
    have less := UInt64.lt_iff_toNat_lt.mp more
    omega
  · rename_i fits
    rw [gt_iff_lt, UInt64.lt_iff_toNat_lt] at fits
    omega

variable {charge : UInt64}

theorem charge_logical {logical : UInt64} (charged : payloadCharge config logical = .ok charge) : logical ≠ 0 := by
  rintro rfl
  simp [payloadCharge] at charged

theorem layer_in_stats (inv : Inv c) (l : Nat) (bound : l < c.config.layerCount.toNat) :
    (c.layers l).baseBytes.toNat ≤ c.stats.baseBytes.toNat ∧ (c.layers l).residualBytes.toNat ≤ c.stats.residualBytes.toNat ∧
      (c.layers l).baseEntries.toNat ≤ c.entryCount.toNat ∧ (c.layers l).residualEntries.toNat ≤ c.entryCount.toNat := by
  have usage := inv.usage
  have ofLayer := usage.layer l bound
  refine ⟨?_, ?_, ?_, ?_⟩
  · rw [ofLayer.baseBytes, usage.base]
    exact total_mono _ _ _ _ (on_layer_le l baseOf)
  · rw [ofLayer.residualBytes, usage.residual]
    exact total_mono _ _ _ _ (on_layer_le l residualOf)
  · rw [ofLayer.baseEntries, usage.count]
    exact total_mono _ _ _ _ (on_layer_le l countOf)
  · rw [ofLayer.residualEntries, usage.count]
    refine total_mono _ _ _ _ (fun entry => (on_layer_le l residualCountOf entry).trans ?_)
    unfold residualCountOf countOf
    by_cases live : entry.occupied <;> by_cases residual : entry.hasResidual <;> simp [live, residual]

-- What insert_base has established when it writes the new entry.
structure Admissible (c : ExpertCache) (slot bucket : Nat) (key : EcacheKey) (request : Admission)
    (charge : UInt64) : Prop where
  inside : slot < c.config.maxEntries.toNat
  vacant : (c.entries slot).occupied = false
  layer : key.layer.toNat < c.config.layerCount.toNat
  payload : request.payload ≠ 0
  charged : payloadCharge c.config request.logicalBytes = .ok charge
  missing : hashFind c key = .missing (some bucket)
  unused : ∀ i < c.config.maxEntries.toNat, ¬ CarriesHandle (c.entries i) request.payload
  room : RoomMade charge true c

variable {slot : Nat}

theorem admissible_retouched (admissible : Admissible c slot bucket key request charge) (touched : Retouches c d) :
    Admissible d slot bucket key request charge := by
  have found := retouches_find touched key
  obtain ⟨entries, clock, stats, layers, rfl, same, totals, _⟩ := touched
  refine ⟨admissible.inside, (same slot).occupied.trans admissible.vacant, admissible.layer,
    admissible.payload, admissible.charged, found.trans admissible.missing, ?_, ?_⟩
  · intro i inside carries
    exact admissible.unused i inside ((retouched_carries (same i) request.payload).mp carries)
  · have room := admissible.room
    unfold RoomMade at room ⊢
    rw [totals.payload]
    exact room

theorem new_entry_valid {order : UInt64} (layer : key.layer.toNat < config.layerCount.toNat) (payload : request.payload ≠ 0)
    (charged : payloadCharge config request.logicalBytes = .ok charge) (later : order ≠ 0) :
    EntryValid config (newEntry key request charge order) where
  layer := layer
  payload := payload
  logical := charge_logical charged
  charge := charged
  queue := .inl rfl
  access := later
  order := later
  residual live := by cases live
  bare _ := ⟨rfl, rfl, rfl, rfl, rfl⟩

theorem admit_entry_inv (inv : Inv c) {order : UInt64} (admissible : Admissible c slot bucket key request charge)
    (later : order ≠ 0) :
    Inv { c with
      entries := write c.entries slot (newEntry key request charge order)
      tombstones := if c.buckets bucket = .tombstone then c.tombstones - 1 else c.tombstones
      wrapped := c.wrapped || (decide (c.buckets bucket = .tombstone) && decide (c.tombstones < 1))
      buckets := write c.buckets bucket (.slot slot)
      entryCount := c.entryCount + 1
      layers := write c.layers key.layer.toNat { c.layers key.layer.toNat with
        baseBytes := (c.layers key.layer.toNat).baseBytes + charge
        baseEntries := (c.layers key.layer.toNat).baseEntries + 1 }
      stats := raisePeak { c.stats with
        payloadBytes := c.stats.payloadBytes + charge
        baseBytes := c.stats.baseBytes + charge
        entries := c.entryCount + 1
        baseBytesRead := satAdd c.stats.baseBytesRead request.sourceBytesRead } } := by
  have absent := hash_find_missing c key _ inv.sizes inv.index admissible.missing
  obtain ⟨b, bound, found, free, fresh, chain⟩ := hash_find_absent c key inv.sizes inv.index
    (fun s _ inside occupied => absent s inside occupied)
  have same : b = bucket := by
    rw [admissible.missing] at found
    exact (Option.some.inj (HashFind.missing.inj found)).symm
  subst same
  obtain ⟨marked, index⟩ := index_admit inv.sizes inv.index b slot bound admissible.inside admissible.vacant
    (newEntry key request charge order) rfl free fresh chain
  obtain ⟨inBase, _, inCount, _⟩ := layer_in_stats inv key.layer.toNat admissible.layer
  obtain ⟨room, slots⟩ := admissible.room
  have below := slots rfl
  have budget := c.config.budgetBytes.toNat_lt
  have size := c.config.maxEntries.toNat_lt
  have sum := inv.usage.payload
  have paid := u64_add c.stats.payloadBytes charge (by omega)
  have bytes := u64_add c.stats.baseBytes charge (by omega)
  have layerBytes := u64_add (c.layers key.layer.toNat).baseBytes charge (by omega)
  have count := u32_add c.entryCount 1 (by rw [UInt32.toNat_one]; omega)
  have layerCount := u32_add (c.layers key.layer.toNat).baseEntries 1 (by rw [UInt32.toNat_one]; omega)
  rw [UInt32.toNat_one] at count layerCount
  have exact_ : (c.wrapped || (decide (c.buckets b = .tombstone) && decide (c.tombstones < 1))) = false := by
    rw [inv.exact, Bool.false_or]
    by_cases mark : c.buckets b = .tombstone
    · rw [(u32_not_lt c.tombstones 1).mpr (marked mark), Bool.and_false]
    · simp [mark]
  refine ⟨inv.magic, inv.release, inv.alignment, inv.sizes, inv.budget, inv.metadata, ?_, index, ?_, ?_, exact_⟩
  · refine entries_admit inv.entries slot _ (new_entry_valid admissible.layer admissible.payload
      admissible.charged later) (fun i inside _ occupied => absent i inside occupied) ?_
    intro i inside _ payload carries
    obtain ⟨_, base | ⟨residual, _⟩⟩ := carries
    · exact fun clash => admissible.unused i inside (by rw [← base] at clash; exact clash)
    · cases residual
  · refine usage_replace inv.usage slot admissible.inside (.inr admissible.vacant) (.inl rfl) ?_ ?_ ?_ ?_
    · refine ⟨?_, ?_, ?_, ?_⟩
      · simp [baseOf, admissible.vacant, newEntry, layerBytes]
      · simp [residualOf, admissible.vacant, newEntry]
      · simp [countOf, admissible.vacant, newEntry, layerCount]
      · simp [residualCountOf, admissible.vacant, newEntry]
    · refine ⟨?_, ?_, ?_, ?_, rfl⟩
      · simp [baseOf, admissible.vacant, newEntry, bytes, raisePeak]
      · simp [residualOf, admissible.vacant, newEntry, raisePeak]
      · simp only [raisePeak]
        omega
      · simp [countOf, admissible.vacant, newEntry, count]
    · rw [raised_peak]
      exact Nat.le_max_left _ _
    · rw [raised_peak]
      have peak := inv.usage.peakBudget
      simp only [paid]
      omega
  · intro i within
    by_cases here : i = slot
    · subst here
      simp [newEntry]
    · simpa [here] using inv.unplanned i within

theorem admit_base_inv (inv : Inv c) (admissible : Admissible c slot bucket key request charge) :
    Inv (admitBase c slot bucket key request charge) := by
  obtain ⟨ticks, later, _⟩ := next_clock_spec c
  exact admit_entry_inv (retouches_inv inv ticks) (admissible_retouched admissible ticks) later

structure Promotable (c : ExpertCache) (slot : Nat) (key : EcacheKey) (request : Admission)
    (charge : UInt64) : Prop where
  inside : slot < c.config.maxEntries.toNat
  occupied : (c.entries slot).occupied
  named : (c.entries slot).key = key
  bare : (c.entries slot).hasResidual = false
  payload : request.payload ≠ 0
  charged : payloadCharge c.config request.logicalBytes = .ok charge
  unused : ∀ i < c.config.maxEntries.toNat, ¬ CarriesHandle (c.entries i) request.payload
  room : RoomMade charge false c

theorem with_residual_valid {entry : CacheEntry} (valid : EntryValid config entry) (payload : request.payload ≠ 0)
    (charged : payloadCharge config request.logicalBytes = .ok charge) (separate : request.payload ≠ entry.basePayload) :
    EntryValid config (withResidual entry request charge) where
  layer := valid.layer
  payload := valid.payload
  logical := valid.logical
  charge := valid.charge
  queue := valid.queue
  access := valid.access
  order := valid.order
  residual _ := ⟨payload, charge_logical charged, charged, separate⟩
  bare none := by simp [withResidual] at none

theorem admit_residual_inv (inv : Inv c) (promotable : Promotable c slot key request charge) :
    Inv (admitResidual c slot key request charge) := by
  obtain ⟨inside, occupied, named, bare, payload, charged, unused, room⟩ := promotable
  subst named
  have valid := inv.entries.valid slot inside occupied
  obtain ⟨_, inResidual, _, inCount⟩ := layer_in_stats inv (c.entries slot).key.layer.toNat valid.layer
  have room := room.1
  have entries := entry_count_bound inv
  have budget := c.config.budgetBytes.toNat_lt
  have sum := inv.usage.payload
  have paid := u64_add c.stats.payloadBytes charge (by omega)
  have bytes := u64_add c.stats.residualBytes charge (by omega)
  have layerBytes := u64_add (c.layers (c.entries slot).key.layer.toNat).residualBytes charge (by omega)
  have layerCount := u32_add (c.layers (c.entries slot).key.layer.toNat).residualEntries 1 (by
    obtain ⟨k, small, power⟩ := inv.sizes.power
    have size : 2 ^ k ≤ 2 ^ 31 := Nat.pow_le_pow_right (by omega) small
    have half := inv.sizes.half
    rw [UInt32.toNat_one]
    omega)
  rw [UInt32.toNat_one] at layerCount
  unfold admitResidual
  dsimp only
  refine ⟨inv.magic, inv.release, inv.alignment, inv.sizes, inv.budget, inv.metadata, ?_, ?_, ?_, ?_, inv.exact⟩
  · refine entries_admit inv.entries slot _ (with_residual_valid valid payload charged ?_) ?_ ?_
    · intro same
      exact unused slot inside ⟨occupied, .inl same.symm⟩
    · intro i within other live same
      exact other (inv.entries.keys i within slot inside live occupied same)
    · intro i within other handle carries held
      obtain ⟨_, base | ⟨_, residual⟩⟩ := carries
      · exact other (inv.entries.handles i within slot inside handle held ⟨occupied, .inl base⟩)
      · exact unused i within (by rw [← residual] at held; exact held)
  · refine index_congr inv.sizes inv.index (fun i _ => ?_)
    by_cases here : i = slot
    · subst here
      simp [withResidual]
    · simp [here]
  · refine usage_replace inv.usage slot inside (.inl rfl) (.inl rfl) ?_ ?_ ?_ ?_
    · refine ⟨rfl, ?_, rfl, ?_⟩
      · simp [residualOf, occupied, bare, withResidual, layerBytes]
      · simp [residualCountOf, occupied, bare, withResidual, layerCount]
    · refine ⟨?_, ?_, ?_, rfl, ?_⟩
      · simp [baseOf, occupied, withResidual, raisePeak]
      · simp [residualOf, occupied, bare, withResidual, bytes, raisePeak]
      · simp only [raisePeak]
        omega
      · exact inv.usage.counted
    · rw [raised_peak]
      exact Nat.le_max_left _ _
    · rw [raised_peak]
      have peak := inv.usage.peakBudget
      simp only [paid]
      omega
  · intro i within
    by_cases here : i = slot
    · subst here
      simpa [withResidual] using inv.unplanned i within
    · simpa [here] using inv.unplanned i within

end SamosaChat.Ecache
