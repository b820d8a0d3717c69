import SamosaChat.Ecache.Release
import SamosaChat.Lib.Iterate
import SamosaChat.Lib.Scan

set_option autoImplicit false

namespace SamosaChat.Ecache

open Slots Scan Iterate

def baseFloorAllows (c : ExpertCache) (slot : Nat) (planning : Bool) : Bool :=
  let entry := c.entries slot
  let layer := c.layers entry.key.layer.toNat
  let bytes := if planning then layer.planBaseBytes else layer.baseBytes
  let entries := if planning then layer.planBaseEntries else layer.baseEntries
  if !entry.occupied || entry.plannedBaseEvict || entry.pinCount ≠ 0 then false
  else if entries = 0 || bytes < entry.baseCharge then false
  else entries - 1 ≥ layer.floor.minBaseEntries && bytes - entry.baseCharge ≥ layer.floor.minBaseBytes

def candidatePrecedes (c : ExpertCache) (aSlot bSlot : Nat) : Bool :=
  let a := c.entries aSlot
  let b := c.entries bSlot
  if c.config.policy = .twoQ then
    if a.queue ≠ b.queue then a.queue = .cold
    else if a.queue = .cold then
      if a.admissionOrder ≠ b.admissionOrder then a.admissionOrder < b.admissionOrder
      else aSlot < bSlot
    else if a.lastAccess ≠ b.lastAccess then a.lastAccess < b.lastAccess
    else aSlot < bSlot
  else if a.lastAccess ≠ b.lastAccess then a.lastAccess < b.lastAccess
  else aSlot < bSlot

def residualEligible (entry : CacheEntry) : Bool :=
  entry.occupied && entry.hasResidual && entry.pinCount == 0

-- `none` is the UINT32_MAX of the C, also for a protected slot that protects nothing.
def chooseResidual (c : ExpertCache) : Option Nat :=
  bestOf c.slotCount (fun i => residualEligible (c.entries i)) (candidatePrecedes c)

def chooseBase (c : ExpertCache) (protectedSlot : Option Nat) (planning : Bool) : Option Nat :=
  bestOf c.slotCount (fun i => !(some i == protectedSlot) && baseFloorAllows c i planning)
    (candidatePrecedes c)

def requiredReclaim (c : ExpertCache) (incoming : UInt64) : UInt64 :=
  let available := c.config.budgetBytes - c.stats.payloadBytes
  if incoming > available then incoming - available else 0

def noteReclaim (c : ExpertCache) : ExpertCache :=
  { c with wrapped := c.wrapped || decide (c.config.budgetBytes < c.stats.payloadBytes) }

def addEligible (c : ExpertCache) (bytes : UInt64) (i : Nat) : Option UInt64 :=
  if residualEligible (c.entries i) then
    if UInt64.ofNat (2 ^ 64 - 1) - bytes < (c.entries i).residualCharge then none
    else some (bytes + (c.entries i).residualCharge)
  else some bytes

def eligibleResidualBytes (c : ExpertCache) : UInt64 :=
  ((List.range c.slotCount).foldlM (addEligible c) 0).getD (UInt64.ofNat (2 ^ 64 - 1))

def resetPlanLayers (c : ExpertCache) : Nat → LayerState :=
  fun l =>
    if l < c.config.layerCount.toNat then
      { c.layers l with
        planBaseBytes := (c.layers l).baseBytes
        planBaseEntries := (c.layers l).baseEntries }
    else c.layers l

def clearPlan (c : ExpertCache) : ExpertCache :=
  { c with
    entries := fun i => if i < c.slotCount then { c.entries i with plannedBaseEvict := false } else c.entries i
    layers := resetPlanLayers c }

structure Plan where
  cache : ExpertCache
  freed : UInt64
  bases : UInt32

def planEnough (needed : UInt64) (needEntrySlot : Bool) (p : Plan) : Bool :=
  p.freed ≥ needed && (!needEntrySlot || p.bases ≥ 1)

def markEvict (entry : CacheEntry) : CacheEntry :=
  { entry with plannedBaseEvict := true }

def planEvict (p : Plan) (candidate : Nat) : Plan :=
  let entry := p.cache.entries candidate
  let layer := p.cache.layers entry.key.layer.toNat
  { cache := { p.cache with
      entries := write p.cache.entries candidate (markEvict entry)
      layers := write p.cache.layers entry.key.layer.toNat { layer with
        planBaseBytes := layer.planBaseBytes - entry.baseCharge
        planBaseEntries := layer.planBaseEntries - 1 } }
    freed := p.freed + entry.baseCharge
    bases := p.bases + 1 }

def planStep (needed : UInt64) (needEntrySlot : Bool) (protectedSlot : Option Nat) (p : Plan) : Option Plan :=
  if planEnough needed needEntrySlot p then none
  else (chooseBase p.cache protectedSlot true).map (planEvict p)

def planStart (c : ExpertCache) : Plan where
  cache := { c with layers := resetPlanLayers c }
  freed := eligibleResidualBytes c
  bases := 0

def canMakeRoom (c : ExpertCache) (incoming : UInt64) (needEntrySlot : Bool)
    (protectedSlot : Option Nat) : ExpertCache × Bool :=
  if incoming > c.config.budgetBytes then (c, false)
  else
    let c := noteReclaim c
    let needed := requiredReclaim c incoming
    let requireBase := (needEntrySlot && c.entryCount ≥ c.config.maxEntries) ||
      eligibleResidualBytes c < needed
    if !requireBase then (c, true)
    else
      let final := iterate (planStep needed needEntrySlot protectedSlot) c.slotCount (planStart c)
      (clearPlan final.cache, planEnough needed needEntrySlot final)

def makeRoomStep (incoming : UInt64) (needEntrySlot : Bool) (protectedSlot : Option Nat)
    (c : ExpertCache) : Option ExpertCache :=
  let needed := requiredReclaim c incoming
  let slotNeeded := needEntrySlot && c.entryCount ≥ c.config.maxEntries
  if needed = 0 ∧ !slotNeeded then none
  else
    match chooseResidual c with
    | some candidate => some (releaseResidual (noteReclaim c) candidate .demotion true)
    | none =>
      match chooseBase c protectedSlot false with
      | some candidate => some (releaseBase (noteReclaim c) candidate .eviction true)
      | none => none

def makeRoom (c : ExpertCache) (incoming : UInt64) (needEntrySlot : Bool)
    (protectedSlot : Option Nat) : ExpertCache :=
  noteReclaim (iterate (makeRoomStep incoming needEntrySlot protectedSlot) (2 * c.slotCount) c)

def freeSlot (c : ExpertCache) : Option Nat :=
  (List.range c.slotCount).find? fun i => !(c.entries i).occupied

end SamosaChat.Ecache
