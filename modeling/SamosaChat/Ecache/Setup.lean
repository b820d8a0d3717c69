import SamosaChat.Ecache.Api

set_option autoImplicit false

namespace SamosaChat.Ecache

open Slots Iterate

-- sizeof and _Alignof of the three metadata records on the target.
structure Abi where
  sizeofCache : UInt64
  sizeofEntry : UInt64
  sizeofLayer : UInt64
  alignofEntry : UInt64
  alignofLayer : UInt64
  alignofMax : UInt64

def sizeMax : UInt64 := UInt64.ofNat (2 ^ 64 - 1)

def addSize (a b : UInt64) : Option UInt64 :=
  if sizeMax - a < b then none else some (a + b)

def mulSize (a b : UInt64) : Option UInt64 :=
  if a ≠ 0 ∧ b > sizeMax / a then none else some (a * b)

def alignSize (value alignment : UInt64) : Option UInt64 :=
  if alignment = 0 then none
  else
    let remainder := value % alignment
    if remainder = 0 then some value else addSize value (alignment - remainder)

-- One round of the doubling loop; it stops with an overflow above UINT32_MAX / 2.
structure Doubling where
  buckets : UInt64
  overflow : Bool

def doubleStep (wanted : UInt64) (d : Doubling) : Option Doubling :=
  if d.overflow then none
  else if d.buckets < wanted then
    if d.buckets > UInt64.ofNat ((2 ^ 32 - 1) / 2) then some { d with overflow := true }
    else some { d with buckets := d.buckets <<< 1 }
  else none

def hashTombstone : UInt32 := UInt32.ofNat (2 ^ 32 - 2)

def validateConfig (config : EcacheConfig) : Except EcacheStatus UInt32 :=
  if config.payloadAlignment = 0 ∨ config.maxEntries = 0 ∨ config.layerCount = 0 then .error .errSize
  else if config.policy ≠ .lru ∧ config.policy ≠ .twoQ then .error .errPolicy
  else if config.maxEntries ≥ hashTombstone then .error .errSize
  else
    let wanted := config.maxEntries.toUInt64 * 2
    let last := iterate (doubleStep wanted) 64 { buckets := 1, overflow := false }
    if last.overflow then .error .errOverflow
    else if last.buckets > UInt64.ofNat (2 ^ 32 - 1) then .error .errOverflow
    else .ok last.buckets.toUInt32

def ecacheWorkspaceSize (abi : Abi) (config : EcacheConfig) : Except EcacheStatus UInt64 :=
  match validateConfig config with
  | .error status => .error status
  | .ok bucketCount =>
    let total := do
      let total ← alignSize abi.sizeofCache abi.alignofEntry
      let total ← addSize total (← mulSize config.maxEntries.toUInt64 abi.sizeofEntry)
      let total ← alignSize total 4
      let total ← addSize total (← mulSize bucketCount.toUInt64 4)
      let total ← alignSize total abi.alignofLayer
      let total ← addSize total (← mulSize config.layerCount.toUInt64 abi.sizeofLayer)
      alignSize total abi.alignofMax
    match total with
    | some total => .ok total
    | none => .error .errOverflow

-- The caller's side of ecache_init; an address 0 is NULL.
structure InitArgs where
  workspace : UInt64
  workspaceSize : UInt64
  config : EcacheConfig
  layerFloors : Option (Nat → EcacheLayerFloor)
  hasRelease : Bool
  cacheOut : Bool

def ecacheInit (abi : Abi) (args : InitArgs) : Except EcacheStatus ExpertCache :=
  if !args.cacheOut then .error .errArgument
  else if args.workspace = 0 || !args.hasRelease then .error .errArgument
  else if args.workspace % abi.alignofMax ≠ 0 then .error .errAlignment
  else
    match validateConfig args.config with
    | .error status => .error status
    | .ok bucketCount =>
      match ecacheWorkspaceSize abi args.config with
      | .error status => .error status
      | .ok needed =>
        if args.workspaceSize < needed then .error .errSize
        else .ok {
          magic := ecacheMagic
          config := args.config
          hasRelease := args.hasRelease
          metadataBytes := needed
          bucketCount := bucketCount
          tombstones := 0
          entryCount := 0
          clock := 0
          entries := fun _ => {}
          buckets := fun _ => .empty
          layers := fun l =>
            match args.layerFloors with
            | some floors => if l < args.config.layerCount.toNat then { floor := floors l } else {}
            | none => {}
          stats := { budgetBytes := args.config.budgetBytes, metadataBytes := needed }
          released := []
          wrapped := false }

structure Tally where
  baseBytes : UInt64 := 0
  residualBytes : UInt64 := 0
  occupied : UInt32 := 0

def chargeIs (config : EcacheConfig) (logical charge : UInt64) : Bool :=
  match payloadCharge config logical with
  | .ok due => due == charge
  | .error _ => false

def validateResidual (c : ExpertCache) (entry : CacheEntry) (bytes : UInt64) : Option UInt64 :=
  if entry.hasResidual then
    if entry.residualPayload = 0 || entry.residualLogical = 0 ||
        entry.residualPayload = entry.basePayload ||
        !chargeIs c.config entry.residualLogical entry.residualCharge ||
        sizeMax - bytes < entry.residualCharge then none
    else some (bytes + entry.residualCharge)
  else if entry.residualPayload ≠ 0 || entry.residualLogical ≠ 0 || entry.residualCharge ≠ 0 ||
      entry.residualRead ≠ 0 || entry.residualPrefetchedUnused then none
  else some bytes

def slotFound (c : ExpertCache) (i : Nat) : Bool :=
  match hashFind c (c.entries i).key with
  | .found _ slot => slot == i
  | .missing _ => false

def entriesClash (entry other : CacheEntry) : Bool :=
  other.occupied && (entry.key == other.key || entry.basePayload == other.basePayload ||
    (other.hasResidual && entry.basePayload == other.residualPayload) ||
    (entry.hasResidual && (entry.residualPayload == other.basePayload ||
      (other.hasResidual && entry.residualPayload == other.residualPayload))))

def validateSlot (c : ExpertCache) (t : Tally) (i : Nat) : Option Tally :=
  let entry := c.entries i
  if !entry.occupied then some t
  else if entry.key.layer ≥ c.config.layerCount || entry.basePayload = 0 || entry.baseLogical = 0 ||
      (entry.queue ≠ .cold && entry.queue ≠ .hot) || entry.lastAccess = 0 || entry.admissionOrder = 0 ||
      entry.plannedBaseEvict then none
  else if !chargeIs c.config entry.baseLogical entry.baseCharge ||
      sizeMax - t.baseBytes < entry.baseCharge then none
  else
    match validateResidual c entry t.residualBytes with
    | none => none
    | some residualBytes =>
      if !slotFound c i then none
      else if (List.range c.bucketCount.toNat).countP (fun j => c.buckets j == .slot i) ≠ 1 then none
      else if (List.range c.slotCount).any fun j => i < j && entriesClash entry (c.entries j) then none
      else some {
        baseBytes := t.baseBytes + entry.baseCharge
        residualBytes := residualBytes
        occupied := t.occupied + 1 }

def bucketSound (c : ExpertCache) (b : Nat) : Bool :=
  match c.buckets b with
  | .slot index => index < c.slotCount && (c.entries index).occupied
  | _ => true

structure LayerTally where
  base : UInt64 := 0
  residual : UInt64 := 0
  entries : UInt32 := 0
  residualEntries : UInt32 := 0
deriving DecidableEq

def tallyLayer (c : ExpertCache) (l : Nat) (t : LayerTally) (j : Nat) : LayerTally :=
  let entry := c.entries j
  if !entry.occupied || entry.key.layer.toNat ≠ l then t
  else
    { base := t.base + entry.baseCharge
      entries := t.entries + 1
      residual := if entry.hasResidual then t.residual + entry.residualCharge else t.residual
      residualEntries := if entry.hasResidual then t.residualEntries + 1 else t.residualEntries }

def layerSound (c : ExpertCache) (l : Nat) : Bool :=
  (List.range c.slotCount).foldl (tallyLayer c l) {} ==
    { base := (c.layers l).baseBytes
      residual := (c.layers l).residualBytes
      entries := (c.layers l).baseEntries
      residualEntries := (c.layers l).residualEntries }

def totalsSound (c : ExpertCache) (t : Tally) : Bool :=
  t.occupied == c.entryCount && t.occupied == c.stats.entries && t.baseBytes == c.stats.baseBytes &&
    t.residualBytes == c.stats.residualBytes && !decide (sizeMax - t.baseBytes < t.residualBytes) &&
    t.baseBytes + t.residualBytes == c.stats.payloadBytes &&
    !decide (c.stats.payloadBytes > c.config.budgetBytes) &&
    !decide (c.stats.peakPayloadBytes < c.stats.payloadBytes) &&
    !decide (c.stats.peakPayloadBytes > c.config.budgetBytes)

def ecacheValidate (c : ExpertCache) : EcacheStatus :=
  if !cacheValid c then .errArgument
  else if !c.hasRelease then .errCorrupt
  else if c.bucketCount = 0 || c.bucketCount &&& (c.bucketCount - 1) ≠ 0 ||
      c.bucketCount < c.config.maxEntries * 2 then .errCorrupt
  else if c.stats.budgetBytes ≠ c.config.budgetBytes || c.stats.metadataBytes ≠ c.metadataBytes then
    .errCorrupt
  else
    match (List.range c.slotCount).foldlM (validateSlot c) {} with
    | none => .errCorrupt
    | some t =>
      if !(List.range c.bucketCount.toNat).all (bucketSound c) then .errCorrupt
      else if !totalsSound c t then .errCorrupt
      else if !(List.range c.config.layerCount.toNat).all (layerSound c) then .errCorrupt
      else .ok

end SamosaChat.Ecache
