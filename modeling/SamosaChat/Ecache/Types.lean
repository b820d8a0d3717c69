import SamosaChat.Lib.Slots
import SamosaChat.Lib.Words

set_option autoImplicit false

namespace SamosaChat.Ecache

inductive EcacheStatus where
  | ok
  | reclaimedPart
  | errArgument
  | errSize
  | errOverflow
  | errAlignment
  | errPolicy
  | errNotFound
  | errExists
  | errNoSpace
  | errCorrupt
deriving DecidableEq, Repr

structure EcacheKey where
  layer : UInt32
  expert : UInt32
deriving DecidableEq, Repr

inductive EcacheState where
  | baseOnly
  | baseAndResidual
deriving DecidableEq, Repr

-- A C enum argument can hold any int; `other` is every value the code rejects.
inductive EcacheRequirement where
  | requireBase
  | requireFull
  | other (value : Int)
deriving DecidableEq, Repr

inductive EcacheLookupResult where
  | hit
  | baseMiss
  | residualMiss
deriving DecidableEq, Repr

inductive EcachePolicy where
  | lru
  | twoQ
  | other (value : Int)
deriving DecidableEq, Repr

inductive EcacheAdmission where
  | demand
  | prefetch
  | other (value : Int)
deriving DecidableEq, Repr

inductive EcachePlane where
  | base
  | residual
deriving DecidableEq, Repr

inductive EcacheReleaseReason where
  | demotion
  | eviction
  | explicit
  | pressureWarn
  | pressureCritical
  | destroy
deriving DecidableEq, Repr

inductive EcachePressure where
  | normal
  | warn
  | critical
  | other (value : Int)
deriving DecidableEq, Repr

-- A payload handle is opaque; 0 is NULL.
abbrev Handle := Nat

structure EcacheConfig where
  budgetBytes : UInt64
  payloadAlignment : UInt64
  maxEntries : UInt32
  layerCount : UInt32
  policy : EcachePolicy

structure EcacheLayerFloor where
  minBaseBytes : UInt64 := 0
  minBaseEntries : UInt32 := 0

structure EcacheReleaseEvent where
  key : EcacheKey
  plane : EcachePlane
  reason : EcacheReleaseReason
  payload : Handle
  logicalBytes : UInt64
  chargedBytes : UInt64
  sourceBytesRead : UInt64
  prefetchedUnused : Bool
deriving DecidableEq

structure EcacheView where
  key : EcacheKey
  state : EcacheState
  basePayload : Handle
  residualPayload : Handle
  baseLogicalBytes : UInt64
  baseChargedBytes : UInt64
  residualLogicalBytes : UInt64
  residualChargedBytes : UInt64
  pinCount : UInt32
  hotQueue : Bool
deriving DecidableEq

structure EcacheStats where
  budgetBytes : UInt64
  metadataBytes : UInt64
  payloadBytes : UInt64 := 0
  baseBytes : UInt64 := 0
  residualBytes : UInt64 := 0
  peakPayloadBytes : UInt64 := 0
  entries : UInt32 := 0
  baseHits : UInt64 := 0
  baseMisses : UInt64 := 0
  residualHits : UInt64 := 0
  residualMisses : UInt64 := 0
  baseBytesRead : UInt64 := 0
  residualBytesRead : UInt64 := 0
  baseBytesAvoided : UInt64 := 0
  residualBytesAvoided : UInt64 := 0
  promotions : UInt64 := 0
  demotions : UInt64 := 0
  evictions : UInt64 := 0
  failedAdmissions : UInt64 := 0
  pressureWarnEvents : UInt64 := 0
  pressureCriticalEvents : UInt64 := 0
  wastedPrefetchPlanes : UInt64 := 0
  wastedPrefetchBytes : UInt64 := 0

inductive Queue where
  | unset
  | cold
  | hot
deriving DecidableEq

structure CacheEntry where
  key : EcacheKey := ⟨0, 0⟩
  basePayload : Handle := 0
  residualPayload : Handle := 0
  baseLogical : UInt64 := 0
  baseCharge : UInt64 := 0
  baseRead : UInt64 := 0
  residualLogical : UInt64 := 0
  residualCharge : UInt64 := 0
  residualRead : UInt64 := 0
  lastAccess : UInt64 := 0
  admissionOrder : UInt64 := 0
  occupied : Bool := false
  hasResidual : Bool := false
  queue : Queue := .unset
  basePrefetchedUnused : Bool := false
  residualPrefetchedUnused : Bool := false
  plannedBaseEvict : Bool := false
  pinCount : UInt32 := 0

structure LayerState where
  floor : EcacheLayerFloor := {}
  baseBytes : UInt64 := 0
  residualBytes : UInt64 := 0
  planBaseBytes : UInt64 := 0
  baseEntries : UInt32 := 0
  residualEntries : UInt32 := 0
  planBaseEntries : UInt32 := 0

-- HASH_EMPTY and HASH_TOMBSTONE are the two largest uint32 values; validate_config
-- keeps every slot index below them.
inductive Bucket where
  | empty
  | tombstone
  | slot (index : Nat)
deriving DecidableEq

-- `released` records the calls of the release callback, oldest first, and `wrapped`
-- is raised by every unsigned subtraction whose result would be negative. Neither
-- exists in the C object and no operation reads them.
structure ExpertCache where
  magic : UInt64
  config : EcacheConfig
  hasRelease : Bool
  metadataBytes : UInt64
  bucketCount : UInt32
  tombstones : UInt32
  entryCount : UInt32
  clock : UInt64
  entries : Nat → CacheEntry
  buckets : Nat → Bucket
  layers : Nat → LayerState
  stats : EcacheStats
  released : List EcacheReleaseEvent
  wrapped : Bool

def ecacheMagic : UInt64 := 0x4543414348453031

def satInc (value : UInt64) : UInt64 :=
  if value ≠ UInt64.ofNat (2 ^ 64 - 1) then value + 1 else value

def satAdd (value addend : UInt64) : UInt64 :=
  if UInt64.ofNat (2 ^ 64 - 1) - value < addend then UInt64.ofNat (2 ^ 64 - 1) else value + addend

def payloadCharge (config : EcacheConfig) (logical : UInt64) : Except EcacheStatus UInt64 :=
  if logical = 0 then .error .errSize
  else if config.payloadAlignment = 0 then .error .errCorrupt
  else
    let remainder := logical % config.payloadAlignment
    let extra := if remainder ≠ 0 then config.payloadAlignment - remainder else 0
    if UInt64.ofNat (2 ^ 64 - 1) - logical < extra then .error .errOverflow
    else .ok (logical + extra)

def cacheValid (c : ExpertCache) : Bool := c.magic == ecacheMagic

def ExpertCache.slotCount (c : ExpertCache) : Nat := c.config.maxEntries.toNat

def fillView (entry : CacheEntry) : EcacheView where
  key := entry.key
  state := if entry.hasResidual then .baseAndResidual else .baseOnly
  basePayload := entry.basePayload
  residualPayload := entry.residualPayload
  baseLogicalBytes := entry.baseLogical
  baseChargedBytes := entry.baseCharge
  residualLogicalBytes := entry.residualLogical
  residualChargedBytes := entry.residualCharge
  pinCount := entry.pinCount
  hotQueue := entry.queue == .hot

def payloadInUse (c : ExpertCache) (payload : Handle) : Bool :=
  (List.range c.slotCount).any fun i =>
    (c.entries i).occupied && ((c.entries i).basePayload == payload ||
      ((c.entries i).hasResidual && (c.entries i).residualPayload == payload))

def halveClock (entry : CacheEntry) : CacheEntry :=
  if entry.occupied then
    { entry with
      lastAccess := (entry.lastAccess >>> 1) + 1
      admissionOrder := (entry.admissionOrder >>> 1) + 1 }
  else entry

def nextClock (c : ExpertCache) : ExpertCache × UInt64 :=
  let c := if c.clock = UInt64.ofNat (2 ^ 64 - 1) then
      { c with
        entries := fun i => if i < c.slotCount then halveClock (c.entries i) else c.entries i
        clock := (c.clock >>> 1) + 1 }
    else c
  ({ c with clock := c.clock + 1 }, c.clock + 1)

end SamosaChat.Ecache
