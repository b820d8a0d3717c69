import SamosaChat.Maple.Store
import SamosaChat.Lib.Runs

set_option autoImplicit false

namespace SamosaChat.Maple

open Utf8 Slots Ecache

-- `store` says that store_ is set. A layer and an expert of -1 are no key, a null slab is no bytes.
structure MapleExpertLease where
  store : Bool := false
  key : Option EcacheKey := none
  cachedPayload : Handle := 0
  uncached : Option Bytes := none
  bytes : UInt64 := 0
  cached : Bool := false

def cachedLease (key : EcacheKey) (payload : Handle) (bytes : UInt64) : MapleExpertLease where
  store := true
  key := some key
  cachedPayload := payload
  bytes := bytes
  cached := true

def uncachedLease (key : EcacheKey) (slab : Bytes) (bytes : UInt64) : MapleExpertLease where
  key := some key
  uncached := some slab
  bytes := bytes

def MapleExpertLease.released (lease : MapleExpertLease) : MapleExpertLease where
  uncached := lease.uncached

def MapleExpertLease.live (lease : MapleExpertLease) : Bool := lease.cached && lease.store

inductive Failure
  | noRecord (key : EcacheKey)
  | lookup (status : EcacheStatus)
  | pin (status : EcacheStatus)
  | pinAfterInsert (status : EcacheStatus)
  | insert (status : EcacheStatus)
deriving DecidableEq

-- Where acquire_expert stands in a thread when it does not hold the lock.
inductive Acquiring
  | idle
  | reading (key : EcacheKey)
  | loaded (key : EcacheKey) (payload : Handle)

-- `heap` holds the CachedExpert objects. `torn` is kept for the statements: the payloads that were deleted
-- while a lease that is still to unpin pointed to them.
structure World where
  cache : Option ExpertCache
  heap : Handle → Option Bytes := fun _ => none
  threads : Nat → Acquiring := fun _ => .idle
  leases : List MapleExpertLease := []
  thrown : List Failure := []
  torn : List Handle := []

def World.leased (world : World) (payload : Handle) : Bool :=
  world.leases.any fun lease => lease.live && lease.cachedPayload == payload

def World.data (world : World) (lease : MapleExpertLease) : Option Bytes :=
  if lease.cached then world.heap lease.cachedPayload else lease.uncached

def World.cacheReturned (world : World) (before after : ExpertCache) : World :=
  let deleted := (after.released.drop before.released.length).map (·.payload)
  { world with
    cache := some after
    heap := fun payload => if payload ∈ deleted then none else world.heap payload
    torn := world.torn ++ deleted.filter world.leased }

def World.throws (world : World) (failure : Failure) : World :=
  { world with thrown := world.thrown ++ [failure] }

def World.gives (world : World) (lease : MapleExpertLease) : World :=
  { world with leases := world.leases ++ [lease] }

-- The first critical section of acquire_expert.
def lookupLocked (world : World) (t : Nat) (key : EcacheKey) (cache : ExpertCache) : World :=
  let got := ecacheGet cache key .requireBase true
  if got.2.status ≠ .ok then (world.cacheReturned cache got.1).throws (.lookup got.2.status)
  else if got.2.result = some .hit then
    let pinned := ecachePin got.1 key
    match pinned.2.status, pinned.2.view with
    | .ok, some view => (world.cacheReturned cache pinned.1).gives (cachedLease key view.basePayload view.baseLogicalBytes)
    | status, _ => (world.cacheReturned cache pinned.1).throws (.pin status)
  else { world.cacheReturned cache got.1 with threads := write world.threads t (.reading key) }

-- The second one, after the record was read; the payload of a lease that stays uncached gives up its slab,
-- and one that was not admitted is deleted.
def insertLocked (store : MapleExpertStore) (world : World) (t : Nat) (key : EcacheKey) (payload : Handle)
    (cache : ExpertCache) : World :=
  let inserted := ecacheInsertBase cache key {
    payload := payload
    logicalBytes := store.expertLogicalBytes
    sourceBytesRead := store.expertLogicalBytes
    admission := .demand }
  let world := { world.cacheReturned cache inserted.1 with threads := write world.threads t .idle }
  match inserted.2.status with
  | .ok =>
    let pinned := ecachePin inserted.1 key
    if pinned.2.status = .ok then
      (world.cacheReturned inserted.1 pinned.1).gives (cachedLease key payload store.expertLogicalBytes)
    else
      let removed := ecacheRemove pinned.1 key
      (world.cacheReturned inserted.1 removed.1).throws (.pinAfterInsert pinned.2.status)
  | .errNoSpace =>
    let slab := (world.heap payload).getD []
    { world with heap := write world.heap payload none }.gives (uncachedLease key slab store.expertLogicalBytes)
  | status => { world with heap := write world.heap payload none }.throws (.insert status)

def acquireExpert (store : MapleExpertStore) (world : World) (t : Nat) (key : EcacheKey) : World :=
  if ¬ store.HasRecord key then world.throws (.noRecord key)
  else
    match world.cache with
    | none => world.gives (uncachedLease key (store.contents key) store.expertLogicalBytes)
    | some cache => lookupLocked world t key cache

def unpinCached (world : World) (key : Option EcacheKey) : World :=
  match world.cache, key with
  | some cache, some key => world.cacheReturned cache (ecacheUnpin cache key).1
  | _, _ => world

def unpinLease (world : World) (lease : MapleExpertLease) : World :=
  if lease.live then unpinCached world lease.key else world

def releaseLease (world : World) (i : Nat) (left : MapleExpertLease → MapleExpertLease) : World :=
  match world.leases[i]? with
  | none => world
  | some lease => { unpinLease world lease with leases := world.leases.set i (left lease) }

inductive Event
  | acquire (t : Nat) (key : EcacheKey)
  | read (t : Nat) (payload : Handle)
  | insert (t : Nat)
  | release (i : Nat)
  | destroy (i : Nat)
  | moveConstruct (i : Nat)
  | moveAssign (i j : Nat)
  | pressure (level : EcachePressure) (targetBytes : UInt64)

-- A moved-from lease has every field reset. An assignment releases its target first and does nothing
-- when both are one object.
def moveAssign (world : World) (i j : Nat) : World :=
  match world.leases[j]? with
  | none => world
  | some lease =>
    if i = j ∨ world.leases.length ≤ i then world
    else
      let world := releaseLease world i fun _ => lease
      { world with leases := world.leases.set j {} }

def step (store : MapleExpertStore) (world : World) : Event → World
  | .acquire t key =>
    match world.threads t with
    | .idle => acquireExpert store world t key
    | _ => world
  | .read t payload =>
    match world.threads t with
    | .reading key =>
      if payload ≠ 0 ∧ world.heap payload = none then
        { world with
          heap := write world.heap payload (some (store.contents key))
          threads := write world.threads t (.loaded key payload) }
      else world
    | _ => world
  | .insert t =>
    match world.threads t, world.cache with
    | .loaded key payload, some cache => insertLocked store world t key payload cache
    | _, _ => world
  | .release i => releaseLease world i MapleExpertLease.released
  | .destroy i => releaseLease world i fun _ => {}
  | .moveConstruct i =>
    match world.leases[i]? with
    | none => world
    | some lease => { world with leases := world.leases.set i {} ++ [lease] }
  | .moveAssign i j => moveAssign world i j
  | .pressure level targetBytes =>
    match world.cache with
    | none => world
    | some cache => world.cacheReturned cache (ecacheApplyPressure cache level targetBytes true).1

def run (store : MapleExpertStore) (cache : Option ExpertCache) (events : List Event) : World :=
  events.foldl (step store) { cache := cache }

def liveLeases (leases : List MapleExpertLease) (key : EcacheKey) : Nat :=
  leases.countP fun lease => lease.live && lease.key == some key

-- No acquire threw but for an expert without a record; a lease shows its record until it is released; no
-- payload behind a lease was deleted; and the pins are the leases.
structure LeasesCorrect (store : MapleExpertStore) (world : World) : Prop where
  returned : ∀ failure ∈ world.thrown, ∃ key, failure = .noRecord key ∧ ¬ store.HasRecord key
  seen : ∀ lease ∈ world.leases, ∀ key, lease.key = some key →
    world.data lease = some (store.contents key) ∧ lease.bytes = store.expertLogicalBytes
  kept : world.torn = []
  pinned : ∀ cache, world.cache = some cache → ∀ i < cache.config.maxEntries.toNat, (cache.entries i).occupied →
    (cache.entries i).pinCount.toNat = liveLeases world.leases (cache.entries i).key
  resident : ∀ lease ∈ world.leases, lease.live → ∃ cache, world.cache = some cache ∧
    ∃ i < cache.config.maxEntries.toNat, (cache.entries i).occupied ∧ lease.key = some (cache.entries i).key ∧
      lease.cachedPayload = (cache.entries i).basePayload

structure AcquireReturns (store : MapleExpertStore) (world : World) (t : Nat) (key : EcacheKey) : Prop where
  acquired : world.threads t = .idle → store.HasRecord key → liveLeases world.leases key < 2 ^ 32 - 1 →
    (step store world (.acquire t key)).threads t = .reading key ∨
      ∃ lease, lease.key = some key ∧ (step store world (.acquire t key)).leases = world.leases ++ [lease]
  inserted : ∀ payload, world.threads t = .loaded key payload →
    (∀ cache, world.cache = some cache → ¬ Resides cache key) →
      ∃ lease, lease.key = some key ∧ (step store world (.insert t)).leases = world.leases ++ [lease]

structure MoveTransfers (store : MapleExpertStore) (world : World) (i : Nat) : Prop where
  emptied : step store (step store world (.moveConstruct i)) (.release i) = step store world (.moveConstruct i)
  handed : i < world.leases.length →
    (step store (step store world (.moveConstruct i)) (.release world.leases.length)).cache =
      (step store world (.release i)).cache
  emptiedByAssign : ∀ target, target ≠ i → target < world.leases.length →
    step store (step store world (.moveAssign target i)) (.release i) = step store world (.moveAssign target i)
  handedByAssign : ∀ target, target ≠ i → target < world.leases.length → i < world.leases.length →
    (step store (step store world (.moveAssign target i)) (.release target)).cache =
      (step store (step store world (.release target)) (.release i)).cache

def StillAbsent : Acquiring → Option ExpertCache → Prop
  | .loaded key _, some cache => ¬ Resides cache key
  | _, _ => True

instance : (acquiring : Acquiring) → (cache : Option ExpertCache) → Decidable (StillAbsent acquiring cache)
  | .loaded _ _, some _ => inferInstanceAs (Decidable (¬ _))
  | .loaded _ _, none => isTrue trivial
  | .idle, _ => isTrue trivial
  | .reading _, _ => isTrue trivial

def Undisturbed (world : World) : Event → Prop
  | .acquire _ key => liveLeases world.leases key < 2 ^ 32 - 1
  | .insert t => StillAbsent (world.threads t) world.cache
  | _ => True

instance (world : World) : (event : Event) → Decidable (Undisturbed world event)
  | .acquire _ _ => inferInstanceAs (Decidable (_ < _))
  | .insert _ => inferInstanceAs (Decidable (StillAbsent _ _))
  | .read _ _ | .release _ | .destroy _ | .moveConstruct _ | .moveAssign _ _ | .pressure _ _ => isTrue trivial

end SamosaChat.Maple
