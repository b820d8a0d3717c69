import SamosaChat.Ecache.Index

set_option autoImplicit false

namespace SamosaChat.Ecache

open Slots

def baseOf (entry : CacheEntry) : Nat :=
  if entry.occupied then entry.baseCharge.toNat else 0

def residualOf (entry : CacheEntry) : Nat :=
  if entry.occupied && entry.hasResidual then entry.residualCharge.toNat else 0

def countOf (entry : CacheEntry) : Nat :=
  if entry.occupied then 1 else 0

def residualCountOf (entry : CacheEntry) : Nat :=
  if entry.occupied && entry.hasResidual then 1 else 0

def onLayer (layer : Nat) (measure : CacheEntry → Nat) (entry : CacheEntry) : Nat :=
  if entry.key.layer.toNat = layer then measure entry else 0

structure LayerUsage (slots : Nat) (entries : Nat → CacheEntry) (l : Nat) (layer : LayerState) : Prop where
  baseBytes : layer.baseBytes.toNat = total slots entries (onLayer l baseOf)
  residualBytes : layer.residualBytes.toNat = total slots entries (onLayer l residualOf)
  baseEntries : layer.baseEntries.toNat = total slots entries (onLayer l countOf)
  residualEntries : layer.residualEntries.toNat = total slots entries (onLayer l residualCountOf)

structure UsageOk (config : EcacheConfig) (entries : Nat → CacheEntry) (layers : Nat → LayerState)
    (stats : EcacheStats) (entryCount : UInt32) : Prop where
  base : stats.baseBytes.toNat = total config.maxEntries.toNat entries baseOf
  residual : stats.residualBytes.toNat = total config.maxEntries.toNat entries residualOf
  payload : stats.payloadBytes.toNat = stats.baseBytes.toNat + stats.residualBytes.toNat
  count : entryCount.toNat = total config.maxEntries.toNat entries countOf
  counted : stats.entries = entryCount
  layer : ∀ l < config.layerCount.toNat, LayerUsage config.maxEntries.toNat entries l (layers l)
  peak : stats.payloadBytes.toNat ≤ stats.peakPayloadBytes.toNat
  peakBudget : stats.peakPayloadBytes.toNat ≤ config.budgetBytes.toNat

structure ResidualValid (config : EcacheConfig) (entry : CacheEntry) : Prop where
  payload : entry.residualPayload ≠ 0
  logical : entry.residualLogical ≠ 0
  charge : payloadCharge config entry.residualLogical = .ok entry.residualCharge
  separate : entry.residualPayload ≠ entry.basePayload

structure ResidualAbsent (entry : CacheEntry) : Prop where
  payload : entry.residualPayload = 0
  logical : entry.residualLogical = 0
  charge : entry.residualCharge = 0
  read : entry.residualRead = 0
  unused : entry.residualPrefetchedUnused = false

structure EntryValid (config : EcacheConfig) (entry : CacheEntry) : Prop where
  layer : entry.key.layer.toNat < config.layerCount.toNat
  payload : entry.basePayload ≠ 0
  logical : entry.baseLogical ≠ 0
  charge : payloadCharge config entry.baseLogical = .ok entry.baseCharge
  queue : entry.queue = .cold ∨ entry.queue = .hot
  access : entry.lastAccess ≠ 0
  order : entry.admissionOrder ≠ 0
  residual : entry.hasResidual → ResidualValid config entry
  bare : ¬ entry.hasResidual → ResidualAbsent entry

def CarriesHandle (entry : CacheEntry) (payload : Handle) : Prop :=
  entry.occupied ∧ (entry.basePayload = payload ∨ entry.hasResidual ∧ entry.residualPayload = payload)

structure EntriesOk (config : EcacheConfig) (entries : Nat → CacheEntry) : Prop where
  valid : ∀ i < config.maxEntries.toNat, (entries i).occupied → EntryValid config (entries i)
  keys : KeysDistinct config.maxEntries.toNat entries
  handles : ∀ i < config.maxEntries.toNat, ∀ j < config.maxEntries.toNat, ∀ payload,
    CarriesHandle (entries i) payload → CarriesHandle (entries j) payload → i = j

structure Inv (c : ExpertCache) : Prop where
  magic : c.magic = ecacheMagic
  release : c.hasRelease
  alignment : c.config.payloadAlignment ≠ 0
  sizes : SizesOk c.config.maxEntries.toNat c.bucketCount
  budget : c.stats.budgetBytes = c.config.budgetBytes
  metadata : c.stats.metadataBytes = c.metadataBytes
  entries : EntriesOk c.config c.entries
  index : IndexOk c.config.maxEntries.toNat c.bucketCount c.entries c.buckets c.tombstones
  usage : UsageOk c.config c.entries c.layers c.stats c.entryCount
  unplanned : ∀ i < c.config.maxEntries.toNat, (c.entries i).plannedBaseEvict = false
  exact : c.wrapped = false

theorem on_layer_le (l : Nat) (measure : CacheEntry → Nat) (entry : CacheEntry) : onLayer l measure entry ≤ measure entry := by
  unfold onLayer
  split <;> omega

theorem on_layer_same (measure : CacheEntry → Nat) (entry : CacheEntry) :
    onLayer entry.key.layer.toNat measure entry = measure entry := by
  simp [onLayer]

variable {entry : CacheEntry}

theorem base_of_idle (idle : entry.occupied = false) : baseOf entry = 0 := by
  simp [baseOf, idle]

theorem residual_of_idle (idle : entry.occupied = false) : residualOf entry = 0 := by
  simp [residualOf, idle]

theorem count_of_idle (idle : entry.occupied = false) : countOf entry = 0 := by
  simp [countOf, idle]

theorem residual_count_of_idle (idle : entry.occupied = false) : residualCountOf entry = 0 := by
  simp [residualCountOf, idle]

def LivesOn (layer : Nat) (entry : CacheEntry) : Prop :=
  entry.key.layer.toNat = layer ∨ entry.occupied = false

theorem on_layer_lives {layer : Nat} (lives : LivesOn layer entry)
    (measure : CacheEntry → Nat) (idle : entry.occupied = false → measure entry = 0) (l : Nat) :
    onLayer l measure entry = if l = layer then measure entry else 0 := by
  rcases lives with here | empty
  · simp only [onLayer, here, eq_comm]
  · simp [onLayer, idle empty]

structure LayerShift (old new : CacheEntry) (before after : LayerState) : Prop where
  baseBytes : after.baseBytes.toNat + baseOf old = before.baseBytes.toNat + baseOf new
  residualBytes : after.residualBytes.toNat + residualOf old = before.residualBytes.toNat + residualOf new
  baseEntries : after.baseEntries.toNat + countOf old = before.baseEntries.toNat + countOf new
  residualEntries :
    after.residualEntries.toNat + residualCountOf old = before.residualEntries.toNat + residualCountOf new

structure StatsShift (old new : CacheEntry) (before after : EcacheStats) (count next : UInt32) : Prop where
  base : after.baseBytes.toNat + baseOf old = before.baseBytes.toNat + baseOf new
  residual : after.residualBytes.toNat + residualOf old = before.residualBytes.toNat + residualOf new
  payload : after.payloadBytes.toNat = after.baseBytes.toNat + after.residualBytes.toNat
  count : next.toNat + countOf old = count.toNat + countOf new
  counted : after.entries = next

theorem usage_replace {config : EcacheConfig} {entries : Nat → CacheEntry} {layers : Nat → LayerState}
    {before after : EcacheStats} {count next : UInt32} {layer : Nat} {state : LayerState}
    (usage : UsageOk config entries layers before count) (s : Nat) (inside : s < config.maxEntries.toNat)
    (oldLayer : LivesOn layer (entries s)) (newLayer : LivesOn layer entry)
    (layerShift : LayerShift (entries s) entry (layers layer) state)
    (statsShift : StatsShift (entries s) entry before after count next)
    (peak : after.payloadBytes.toNat ≤ after.peakPayloadBytes.toNat)
    (peakBudget : after.peakPayloadBytes.toNat ≤ config.budgetBytes.toNat) :
    UsageOk config (write entries s entry) (write layers layer state) after next := by
  have moved : ∀ measure : CacheEntry → Nat, _ := fun measure =>
    total_write config.maxEntries.toNat entries measure s entry inside
  refine ⟨?_, ?_, statsShift.payload, ?_, statsShift.counted, ?_, peak, peakBudget⟩
  · have was := usage.base
    have shift := statsShift.base
    have total := moved baseOf
    omega
  · have was := usage.residual
    have shift := statsShift.residual
    have total := moved residualOf
    omega
  · have was := usage.count
    have shift := statsShift.count
    have total := moved countOf
    omega
  · intro l bound
    have was := usage.layer l bound
    have byBase := moved (onLayer l baseOf)
    have byResidual := moved (onLayer l residualOf)
    have byCount := moved (onLayer l countOf)
    have byResidualCount := moved (onLayer l residualCountOf)
    rw [on_layer_lives oldLayer _ base_of_idle, on_layer_lives newLayer _ base_of_idle] at byBase
    rw [on_layer_lives oldLayer _ residual_of_idle, on_layer_lives newLayer _ residual_of_idle] at byResidual
    rw [on_layer_lives oldLayer _ count_of_idle, on_layer_lives newLayer _ count_of_idle] at byCount
    rw [on_layer_lives oldLayer _ residual_count_of_idle, on_layer_lives newLayer _ residual_count_of_idle] at byResidualCount
    by_cases here : l = layer
    · subst here
      rw [write_same]
      simp only [if_true] at byBase byResidual byCount byResidualCount
      have wasBase := was.baseBytes
      have wasResidual := was.residualBytes
      have wasCount := was.baseEntries
      have wasResidualCount := was.residualEntries
      refine ⟨?_, ?_, ?_, ?_⟩
      · have shift := layerShift.baseBytes; omega
      · have shift := layerShift.residualBytes; omega
      · have shift := layerShift.baseEntries; omega
      · have shift := layerShift.residualEntries; omega
    · rw [write_other _ _ _ _ here]
      simp only [if_neg here, Nat.add_zero] at byBase byResidual byCount byResidualCount
      exact ⟨was.baseBytes.trans byBase.symm, was.residualBytes.trans byResidual.symm,
        was.baseEntries.trans byCount.symm, was.residualEntries.trans byResidualCount.symm⟩

theorem occupied_counted (entries : Nat → CacheEntry) (slots s : Nat) (inside : s < slots)
    (occupied : (entries s).occupied) : 1 ≤ total slots entries countOf := by
  have held := measure_le_total slots entries countOf s inside
  simpa [countOf, occupied] using held

theorem full_iff (entries : Nat → CacheEntry) (slots : Nat) :
    total slots entries countOf = slots ↔ ∀ i < slots, (entries i).occupied := by
  constructor
  · intro full
    by_contra missing
    push Not at missing
    obtain ⟨i, inside, empty⟩ := missing
    have filled := total_write slots entries countOf i { occupied := true } inside
    have few := total_le_count slots (write entries i { occupied := true }) countOf
      (fun entry => by unfold countOf; split <;> omega)
    simp only [countOf, empty, if_true, Bool.false_eq_true, if_false] at filled
    omega
  · intro all
    have ones : total slots entries countOf = total slots (fun _ => ({ occupied := true } : CacheEntry)) countOf :=
      total_congr slots _ _ countOf (fun i inside => by simp [countOf, all i inside])
    rw [ones]
    simp [total, countOf]

theorem Inv.given {c : ExpertCache} (inv : Inv c) : ¬(!cacheValid c) = true := by
  simp [cacheValid, inv.magic]

end SamosaChat.Ecache
