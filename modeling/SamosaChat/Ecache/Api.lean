import SamosaChat.Ecache.Plan

set_option autoImplicit false

namespace SamosaChat.Ecache

open Slots Iterate

-- `view` is none where the C leaves the caller's view zeroed or untouched.
structure Reply where
  status : EcacheStatus
  result : Option EcacheLookupResult := none
  view : Option EcacheView := none
  reclaimed : UInt64 := 0

def touchEntry (c : ExpertCache) (slot : Nat) : ExpertCache :=
  let entry := c.entries slot
  let c := { c with
    stats := { c.stats with
      baseHits := satInc c.stats.baseHits
      baseBytesAvoided := satAdd c.stats.baseBytesAvoided entry.baseRead }
    entries := write c.entries slot { entry with basePrefetchedUnused := false } }
  let ticked := nextClock c
  let c := ticked.1
  let entry := c.entries slot
  { c with entries := write c.entries slot { entry with
      lastAccess := ticked.2
      queue := if c.config.policy = .twoQ then .hot else entry.queue } }

-- `out` says that both out pointers are given.
def ecacheGet (c : ExpertCache) (key : EcacheKey) (requirement : EcacheRequirement) (out : Bool) :
    ExpertCache × Reply :=
  if !cacheValid c || !out then (c, { status := .errArgument })
  else if key.layer ≥ c.config.layerCount then (c, { status := .errArgument })
  else if requirement ≠ .requireBase ∧ requirement ≠ .requireFull then (c, { status := .errArgument })
  else
    match hashFind c key with
    | .missing _ =>
      ({ c with stats := { c.stats with
          baseMisses := satInc c.stats.baseMisses
          residualMisses :=
            if requirement = .requireFull then satInc c.stats.residualMisses else c.stats.residualMisses } },
        { status := .ok, result := some .baseMiss })
    | .found _ slot =>
      let c := touchEntry c slot
      let entry := c.entries slot
      if requirement = .requireFull then
        if !entry.hasResidual then
          ({ c with stats := { c.stats with residualMisses := satInc c.stats.residualMisses } },
            { status := .ok, result := some .residualMiss, view := some (fillView entry) })
        else
          let used := { entry with residualPrefetchedUnused := false }
          ({ c with
              stats := { c.stats with
                residualHits := satInc c.stats.residualHits
                residualBytesAvoided := satAdd c.stats.residualBytesAvoided entry.residualRead }
              entries := write c.entries slot used },
            { status := .ok, result := some .hit, view := some (fillView used) })
      else (c, { status := .ok, result := some .hit, view := some (fillView entry) })

def ecachePeek (c : ExpertCache) (key : EcacheKey) (out : Bool) : ExpertCache × Reply :=
  if !cacheValid c || !out then (c, { status := .errArgument })
  else if key.layer ≥ c.config.layerCount then (c, { status := .errArgument })
  else
    match hashFind c key with
    | .missing _ => (c, { status := .errNotFound })
    | .found _ slot => (c, { status := .ok, view := some (fillView (c.entries slot)) })

def ecachePin (c : ExpertCache) (key : EcacheKey) : ExpertCache × Reply :=
  if !cacheValid c then (c, { status := .errArgument })
  else if key.layer ≥ c.config.layerCount then (c, { status := .errArgument })
  else
    match hashFind c key with
    | .missing _ => (c, { status := .errNotFound })
    | .found _ slot =>
      let entry := c.entries slot
      if entry.pinCount = UInt32.ofNat (2 ^ 32 - 1) then (c, { status := .errOverflow })
      else
        let pinned := { entry with pinCount := entry.pinCount + 1 }
        ({ c with entries := write c.entries slot pinned }, { status := .ok, view := some (fillView pinned) })

def ecacheUnpin (c : ExpertCache) (key : EcacheKey) : ExpertCache × Reply :=
  if !cacheValid c then (c, { status := .errArgument })
  else if key.layer ≥ c.config.layerCount then (c, { status := .errArgument })
  else
    match hashFind c key with
    | .missing _ => (c, { status := .errNotFound })
    | .found _ slot =>
      let entry := c.entries slot
      if entry.pinCount = 0 then (c, { status := .errPolicy })
      else
        let unpinned := { entry with pinCount := entry.pinCount - 1 }
        ({ c with entries := write c.entries slot unpinned }, { status := .ok, view := some (fillView unpinned) })

structure Admission where
  payload : Handle
  logicalBytes : UInt64
  sourceBytesRead : UInt64
  admission : EcacheAdmission

def failAdmission (c : ExpertCache) : ExpertCache :=
  { c with stats := { c.stats with failedAdmissions := satInc c.stats.failedAdmissions } }

def raisePeak (stats : EcacheStats) : EcacheStats :=
  { stats with
    peakPayloadBytes :=
      if stats.payloadBytes > stats.peakPayloadBytes then stats.payloadBytes else stats.peakPayloadBytes }

def newEntry (key : EcacheKey) (request : Admission) (charge order : UInt64) : CacheEntry :=
  { key := key
    basePayload := request.payload
    baseLogical := request.logicalBytes
    baseCharge := charge
    baseRead := request.sourceBytesRead
    lastAccess := order
    admissionOrder := order
    occupied := true
    queue := .cold
    basePrefetchedUnused := request.admission == .prefetch }

def admitBase (c : ExpertCache) (slot bucket : Nat) (key : EcacheKey) (request : Admission)
    (charge : UInt64) : ExpertCache :=
  let ticked := nextClock c
  let c := ticked.1
  let marked := c.buckets bucket = .tombstone
  let layer := c.layers key.layer.toNat
  { c with
    entries := write c.entries slot (newEntry key request charge ticked.2)
    tombstones := if marked then c.tombstones - 1 else c.tombstones
    wrapped := c.wrapped || (decide marked && decide (c.tombstones < 1))
    buckets := write c.buckets bucket (.slot slot)
    entryCount := c.entryCount + 1
    layers := write c.layers key.layer.toNat { layer with
      baseBytes := layer.baseBytes + charge
      baseEntries := layer.baseEntries + 1 }
    stats := raisePeak { c.stats with
      payloadBytes := c.stats.payloadBytes + charge
      baseBytes := c.stats.baseBytes + charge
      entries := c.entryCount + 1
      baseBytesRead := satAdd c.stats.baseBytesRead request.sourceBytesRead } }

def ecacheInsertBase (c : ExpertCache) (key : EcacheKey) (request : Admission) : ExpertCache × Reply :=
  if !cacheValid c || request.payload = 0 then (c, { status := .errArgument })
  else if key.layer ≥ c.config.layerCount then (c, { status := .errArgument })
  else if request.admission ≠ .demand ∧ request.admission ≠ .prefetch then (c, { status := .errArgument })
  else
    match payloadCharge c.config request.logicalBytes with
    | .error status => (c, { status := status })
    | .ok charge =>
      match hashFind c key with
      | .found _ _ => (c, { status := .errExists })
      | .missing _ =>
        if payloadInUse c request.payload then (c, { status := .errExists })
        else
          let proof := canMakeRoom c charge true none
          if !proof.2 then (failAdmission proof.1, { status := .errNoSpace })
          else
            let c := makeRoom proof.1 charge true none
            match freeSlot c, hashFind c key with
            | some slot, .missing (some bucket) =>
              let c := admitBase c slot bucket key request charge
              (c, { status := .ok, view := some (fillView (c.entries slot)) })
            | _, _ => (c, { status := .errCorrupt })

def withResidual (entry : CacheEntry) (request : Admission) (charge : UInt64) : CacheEntry :=
  { entry with
    residualPayload := request.payload
    residualLogical := request.logicalBytes
    residualCharge := charge
    residualRead := request.sourceBytesRead
    residualPrefetchedUnused := request.admission == .prefetch
    hasResidual := true }

def admitResidual (c : ExpertCache) (slot : Nat) (key : EcacheKey) (request : Admission)
    (charge : UInt64) : ExpertCache :=
  let layer := c.layers key.layer.toNat
  { c with
    entries := write c.entries slot (withResidual (c.entries slot) request charge)
    layers := write c.layers key.layer.toNat { layer with
      residualBytes := layer.residualBytes + charge
      residualEntries := layer.residualEntries + 1 }
    stats := raisePeak { c.stats with
      payloadBytes := c.stats.payloadBytes + charge
      residualBytes := c.stats.residualBytes + charge
      residualBytesRead := satAdd c.stats.residualBytesRead request.sourceBytesRead
      promotions := satInc c.stats.promotions } }

def ecachePromote (c : ExpertCache) (key : EcacheKey) (request : Admission) : ExpertCache × Reply :=
  if !cacheValid c || request.payload = 0 then (c, { status := .errArgument })
  else if key.layer ≥ c.config.layerCount then (c, { status := .errArgument })
  else if request.admission ≠ .demand ∧ request.admission ≠ .prefetch then (c, { status := .errArgument })
  else
    match hashFind c key with
    | .missing _ => (c, { status := .errNotFound })
    | .found _ slot =>
      if (c.entries slot).hasResidual then (c, { status := .errExists })
      else if payloadInUse c request.payload then (c, { status := .errExists })
      else
        match payloadCharge c.config request.logicalBytes with
        | .error status => (c, { status := status })
        | .ok charge =>
          let proof := canMakeRoom c charge false (some slot)
          if !proof.2 then (failAdmission proof.1, { status := .errNoSpace })
          else
            let c := admitResidual (makeRoom proof.1 charge false (some slot)) slot key request charge
            (c, { status := .ok, view := some (fillView (c.entries slot)) })

def ecacheRemove (c : ExpertCache) (key : EcacheKey) : ExpertCache × Reply :=
  if !cacheValid c then (c, { status := .errArgument })
  else if key.layer ≥ c.config.layerCount then (c, { status := .errArgument })
  else
    match hashFind c key with
    | .missing _ => (c, { status := .errNotFound })
    | .found _ slot =>
      if (c.entries slot).pinCount ≠ 0 then (c, { status := .errPolicy })
      else
        let c :=
          if (c.entries slot).hasResidual then releaseResidual c slot .explicit false else c
        (releaseBase c slot .explicit false, { status := .ok })

def pressureResidualStep (target : UInt64) (reason : EcacheReleaseReason) (c : ExpertCache) :
    Option ExpertCache :=
  if c.stats.payloadBytes > target then
    (chooseResidual c).map fun slot => releaseResidual c slot reason true
  else none

def pressureBaseStep (target : UInt64) (c : ExpertCache) : Option ExpertCache :=
  if c.stats.payloadBytes > target then
    (chooseBase c none false).map fun slot => releaseBase c slot .pressureCritical true
  else none

def pressureResiduals (c : ExpertCache) (target : UInt64) (reason : EcacheReleaseReason) : ExpertCache :=
  iterate (pressureResidualStep target reason) (2 * c.slotCount) c

def pressureBases (c : ExpertCache) (target : UInt64) : ExpertCache :=
  iterate (pressureBaseStep target) (2 * c.slotCount) c

def countPressure (c : ExpertCache) (pressure : EcachePressure) : ExpertCache :=
  { c with stats :=
      if pressure = .warn then
        { c.stats with pressureWarnEvents := satInc c.stats.pressureWarnEvents }
      else { c.stats with pressureCriticalEvents := satInc c.stats.pressureCriticalEvents } }

-- The final subtraction of `reclaimed` is recorded like the others.
def ecacheApplyPressure (c : ExpertCache) (pressure : EcachePressure) (target : UInt64) (out : Bool) :
    ExpertCache × Reply :=
  if !cacheValid c || !out then (c, { status := .errArgument })
  else if target > c.config.budgetBytes then (c, { status := .errSize })
  else if pressure ≠ .normal ∧ pressure ≠ .warn ∧ pressure ≠ .critical then (c, { status := .errArgument })
  else if pressure = .normal then (c, { status := .ok })
  else
    let before := c.stats.payloadBytes
    let reason := if pressure = .warn then EcacheReleaseReason.pressureWarn else .pressureCritical
    let c := pressureResiduals (countPressure c pressure) target reason
    let c := if pressure = .critical then pressureBases c target else c
    ({ c with wrapped := c.wrapped || decide (before < c.stats.payloadBytes) },
      { status := if c.stats.payloadBytes ≤ target then .ok else .reclaimedPart
        reclaimed := before - c.stats.payloadBytes })

def destroySlot (c : ExpertCache) (i : Nat) : ExpertCache :=
  if !(c.entries i).occupied then c
  else
    let c := if (c.entries i).hasResidual then releaseResidual c i .destroy false else c
    releaseBase c i .destroy false

def ecacheDestroy (c : ExpertCache) : ExpertCache × EcacheStatus :=
  if !cacheValid c then (c, .errArgument)
  else if (List.range c.slotCount).any fun i => (c.entries i).occupied && (c.entries i).pinCount != 0 then
    (c, .errPolicy)
  else ({ (List.range c.slotCount).foldl destroySlot c with magic := 0 }, .ok)

inductive ApiCall where
  | get (key : EcacheKey) (requirement : EcacheRequirement) (out : Bool)
  | peek (key : EcacheKey) (out : Bool)
  | pin (key : EcacheKey)
  | unpin (key : EcacheKey)
  | insertBase (key : EcacheKey) (request : Admission)
  | promote (key : EcacheKey) (request : Admission)
  | remove (key : EcacheKey)
  | applyPressure (pressure : EcachePressure) (target : UInt64) (out : Bool)

def call (c : ExpertCache) : ApiCall → ExpertCache × Reply
  | .get key requirement out => ecacheGet c key requirement out
  | .peek key out => ecachePeek c key out
  | .pin key => ecachePin c key
  | .unpin key => ecacheUnpin c key
  | .insertBase key request => ecacheInsertBase c key request
  | .promote key request => ecachePromote c key request
  | .remove key => ecacheRemove c key
  | .applyPressure pressure target out => ecacheApplyPressure c pressure target out

def run (c : ExpertCache) (calls : List ApiCall) : ExpertCache :=
  calls.foldl (fun c request => (call c request).1) c

end SamosaChat.Ecache
