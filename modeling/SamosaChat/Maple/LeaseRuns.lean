import SamosaChat.Maple.LeaseHeld

set_option autoImplicit false

namespace SamosaChat.Maple

open Utf8 Slots Ecache Runs

variable {i t : Nat} {lease : MapleExpertLease}

section Sections

variable {store : MapleExpertStore} {world : World} {c d after : ExpertCache}

theorem cache_returned_same (world : World) (same : after.released = c.released) :
    world.cacheReturned c after = { world with cache := some after } := by
  simp [World.cacheReturned, same]

theorem returned_evicts (held : Held store c world.heap world.threads world.leases) (inv : Inv d) (evicts : Evicts c d)
    (logged : after.released = d.released) :
    ∃ heap, world.cacheReturned c after = { world with cache := some after, heap := heap } ∧
      Held store d heap world.threads world.leases := by
  obtain ⟨events, released, _⟩ := evicts.released
  obtain ⟨kept, apart⟩ := held_evicts held inv evicts released
  have deleted : after.released.drop c.released.length = events := by
    rw [logged, released, List.drop_left]
  have intact : (events.map (·.payload)).filter world.leased = [] := by
    refine List.filter_eq_nil_iff.mpr fun payload member leased => ?_
    obtain ⟨lease, among, points⟩ := List.any_eq_true.mp leased
    simp only [Bool.and_eq_true, beq_iff_eq] at points
    exact apart lease among points.1 (points.2 ▸ member)
  refine ⟨_, ?_, kept⟩
  simp only [World.cacheReturned, deleted, intact, List.append_nil]

theorem record_layer (held : Held store c world.heap world.threads world.leases) {key : EcacheKey}
    (record : store.HasRecord key) : key.layer < c.config.layerCount := by
  rw [UInt32.lt_iff_toNat_lt, held.layers]
  exact record.2.1

theorem pins_room {pins : UInt32} {leases : Nat} (counted : pins.toNat = leases) (few : leases < 2 ^ 32 - 1) :
    pins ≠ UInt32.ofNat (2 ^ 32 - 1) ∧ (pins + 1).toNat = leases + 1 := by
  refine ⟨?_, ?_⟩
  · rintro rfl
    rw [UInt32.toNat_ofNat'] at counted
    omega
  · rw [UInt32.toNat_add, UInt32.toNat_one]
    omega

theorem pin_gives {threads : Nat → Acquiring} {heap : Handle → Option Bytes} {leases : List MapleExpertLease}
    (held : Held store c heap threads leases) (inside : i < c.config.maxEntries.toNat)
    (occupied : (c.entries i).occupied) (few : liveLeases leases (c.entries i).key < 2 ^ 32 - 1) :
    (ecachePin c (c.entries i).key).2.status = .ok ∧
      (ecachePin c (c.entries i).key).2.view =
        some (fillView { c.entries i with pinCount := (c.entries i).pinCount + 1 }) ∧
      Held store (ecachePin c (c.entries i).key).1 heap threads
        (leases ++ [cachedLease (c.entries i).key (c.entries i).basePayload store.expertLogicalBytes]) := by
  obtain ⟨room, more⟩ := pins_room (held.filled i inside occupied).pinned few
  obtain ⟨ok, view, entries⟩ := pin_resident held.inv inside occupied room
  refine ⟨ok, view, held_repinned held (repins_retouches (pin_repins c _)) inside occupied entries ?_ ?_ ?_⟩
  · rw [live_leases_gives, more]
    simp [cachedLease, MapleExpertLease.live]
  · intro key other
    rw [live_leases_gives]
    simp [cachedLease, Ne.symm other]
  · intro lease member _
    rcases List.mem_append.mp member with old | new
    · exact .inl old
    · rw [List.mem_singleton.mp new]
      exact .inr ⟨rfl, rfl⟩

theorem lookup_spec (held : Held store c world.heap world.threads world.leases) {key : EcacheKey}
    (record : store.HasRecord key) (few : liveLeases world.leases key < 2 ^ 32 - 1) :
    (∃ d, lookupLocked world t key c =
        { world with cache := some d, threads := write world.threads t (.reading key) } ∧
      Held store d world.heap (write world.threads t (.reading key)) world.leases) ∨
    ∃ d payload, lookupLocked world t key c =
        { world with cache := some d }.gives (cachedLease key payload store.expertLogicalBytes) ∧
      Held store d world.heap world.threads
        (world.leases ++ [cachedLease key payload store.expertLogicalBytes]) := by
  obtain ⟨same, ok, answer⟩ := get_base held.inv (record_layer held record)
  unfold lookupLocked
  generalize ecacheGet c key .requireBase true = looked at same ok answer
  have released := retouches_released same.touched
  have got := held_same_pins held same
  have config := retouches_config same.touched
  have each := retouches_each same.touched
  dsimp only
  rw [if_neg (fun failed => failed ok)]
  rcases answer with ⟨hit, i, inside, occupied, named⟩ | ⟨miss, _⟩
  · right
    rw [if_pos hit]
    rw [← config] at inside
    rw [← (each i).occupied] at occupied
    rw [← (each i).key] at named
    subst named
    obtain ⟨pinned, view, holds⟩ := pin_gives got inside occupied few
    rw [pinned, view]
    dsimp only
    rw [cache_returned_same world ((retouches_released (repins_retouches (pin_repins _ _))).trans released)]
    refine ⟨_, _, ?_, holds⟩
    rw [← (got.filled i inside occupied).logical]
    rfl
  · left
    rw [if_neg (by rw [miss]; decide), cache_returned_same world released]
    refine ⟨_, rfl, held_thread got t _ ?_ (fun _ _ loaded => nomatch loaded)⟩
    rintro _ ⟨⟩
    exact record

theorem insert_spec (held : Held store c world.heap world.threads world.leases) {key : EcacheKey}
    {payload : Handle} (loaded : world.threads t = .loaded key payload) (absent : ¬ Resides c key) :
    ∃ d heap lease, insertLocked store world t key payload c =
        { world with cache := some d, heap := heap, threads := write world.threads t .idle }.gives lease ∧
      lease.key = some key ∧ LeaseOk store lease ∧
      Held store d heap (write world.threads t .idle) (world.leases ++ [lease]) := by
  obtain ⟨nonzero, record, _, unused⟩ := held.loaded t key payload loaded
  obtain ⟨charge, charged⟩ := held.charged
  unfold insertLocked
  have asks : BaseAsks c key ⟨payload, store.expertLogicalBytes, store.expertLogicalBytes, .demand⟩ charge :=
    asks_base held.inv nonzero (record_layer held record) (.inl rfl) charged absent unused
  have inv := insert_inv held.inv key ⟨payload, store.expertLogicalBytes, store.expertLogicalBytes, .demand⟩
  have outcome := insert_evicts held.inv asks
  generalize ecacheInsertBase c key ⟨payload, store.expertLogicalBytes, store.expertLogicalBytes, .demand⟩ = inserted
    at inv outcome
  dsimp only
  rcases outcome with ⟨full, evicts, _, _⟩ | ⟨d, slot, live, evicts, inside, vacant, ok, config, released, entry, others⟩
  · obtain ⟨heap, returned, holds⟩ := returned_evicts held inv evicts rfl
    rw [full, returned]
    dsimp only
    rw [(holds.loaded t key payload loaded).2.2.1]
    have freed := held_freed holds loaded
    refine ⟨inserted.1, write heap payload none, _, rfl, rfl, .uncached key, ?_⟩
    refine { freed with filled := fun i inside occupied => ?_, leased := fun lease member pinned => ?_ }
    · have filled := freed.filled i inside occupied
      refine { filled with pinned := filled.pinned.trans ?_ }
      rw [live_leases_gives]
      rfl
    · rcases List.mem_append.mp member with old | new
      · exact freed.leased lease old pinned
      · rw [List.mem_singleton.mp new] at pinned
        cases pinned
  · obtain ⟨heap, returned, holds⟩ := returned_evicts held live evicts released
    have gone : ¬ Resides d key := by
      rintro ⟨i, within, taken, named⟩
      rw [evicts.config] at within
      obtain ⟨was, same, _⟩ := shrunk_occupied (evicts.kept i) taken
      exact absent ⟨i, within, was, same.symm.trans named⟩
    obtain ⟨order, entry⟩ := entry
    have admitted := held_admitted holds inv (config.trans evicts.config.symm) vacant loaded rfl rfl gone entry others
    have none := absent_leases held absent
    have key_ : (inserted.1.entries slot).key = key := by rw [entry]; rfl
    have base : (inserted.1.entries slot).basePayload = payload := by rw [entry]; rfl
    obtain ⟨pinned, _, given⟩ := pin_gives admitted (i := slot) (by rw [config]; exact inside)
      (by rw [entry]; rfl) (by rw [key_, none]; decide)
    rw [key_] at pinned given
    rw [base] at given
    rw [ok, returned]
    dsimp only
    rw [if_pos pinned, cache_returned_same _ (retouches_released (repins_retouches (pin_repins _ _)))]
    exact ⟨_, heap, _, rfl, rfl, .cached key payload, given⟩

theorem unpin_spec (held : Held store c world.heap world.threads world.leases) (current : world.cache = some c)
    {left : MapleExpertLease} (at_ : world.leases[i]? = some lease) (live : lease.live) (empty : left.live = false) :
    ∃ d, unpinLease world lease = { world with cache := some d } ∧
      Held store d world.heap world.threads (world.leases.set i left) := by
  obtain ⟨j, inside, occupied, behind, pinned⟩ := leased_pinned held (List.mem_of_getElem? at_) live
  have counted := (held.filled j inside occupied).pinned
  have entries := unpin_resident held.inv inside occupied pinned
  refine ⟨(ecacheUnpin c (c.entries j).key).1, ?_, ?_⟩
  · unfold unpinLease unpinCached
    rw [if_pos live, current, behind.1]
    exact cache_returned_same world (retouches_released (repins_retouches (unpin_repins c _)))
  · refine held_repinned held (repins_retouches (unpin_repins c _)) inside occupied entries ?_ ?_ ?_
    · have moved := live_leases_set (c.entries j).key at_ empty
      rw [live, behind.1] at moved
      simp only [Bool.true_and, beq_self_eq_true, if_true] at moved
      have one : (1 : UInt32) ≤ (c.entries j).pinCount := by
        rw [UInt32.le_iff_toNat_le, UInt32.toNat_one]
        omega
      rw [UInt32.toNat_sub_of_le _ _ one, UInt32.toNat_one]
      omega
    · intro key other
      have moved := live_leases_set key at_ empty
      rw [behind.1] at moved
      simpa [Ne.symm other] using moved
    · intro lease member alive
      rcases List.mem_or_eq_of_mem_set member with old | new
      · exact .inl old
      · rw [new, empty] at alive
        cases alive

end Sections

structure Sound (store : MapleExpertStore) (world : World) : Prop where
  cached : ∀ cache, world.cache = some cache → Held store cache world.heap world.threads world.leases
  uncached : world.cache = none → (∀ t, world.threads t = .idle) ∧ ∀ lease ∈ world.leases, lease.live = false
  shapes : ∀ lease ∈ world.leases, LeaseOk store lease
  returned : ∀ failure ∈ world.thrown, ∃ key, failure = .noRecord key ∧ ¬ store.HasRecord key
  kept : world.torn = []

section Steps

variable {store : MapleExpertStore} {world : World}

theorem shape_empty (store : MapleExpertStore) : LeaseOk store {} := .released none

theorem sound_moved (sound : Sound store world) {leases : List MapleExpertLease}
    (counts : ∀ key, liveLeases leases key = liveLeases world.leases key)
    (among : ∀ lease ∈ leases, lease ∈ world.leases ∨ lease = {}) : Sound store { world with leases := leases } where
  cached cache current := by
    have held := sound.cached cache current
    refine { held with filled := fun i inside occupied => ?_, leased := fun lease member live => ?_ }
    · have filled := held.filled i inside occupied
      exact { filled with pinned := filled.pinned.trans (counts _).symm }
    · rcases among lease member with old | rfl
      · exact held.leased lease old live
      · cases live
  uncached none := by
    obtain ⟨threads, idle⟩ := sound.uncached none
    refine ⟨threads, fun lease member => ?_⟩
    rcases among lease member with old | rfl
    · exact idle lease old
    · rfl
  shapes lease member := by
    rcases among lease member with old | rfl
    · exact sound.shapes lease old
    · exact shape_empty store
  returned := sound.returned
  kept := sound.kept

theorem sound_throws (sound : Sound store world) {key : EcacheKey} (absent : ¬ store.HasRecord key) :
    Sound store (world.throws (.noRecord key)) where
  cached := sound.cached
  uncached := sound.uncached
  shapes := sound.shapes
  returned failure member := by
    rcases List.mem_append.mp member with old | new
    · exact sound.returned failure old
    · exact ⟨key, List.mem_singleton.mp new, absent⟩
  kept := sound.kept

theorem shapes_gives {leases : List MapleExpertLease}
    (shapes : ∀ lease ∈ leases, LeaseOk store lease) (shape : LeaseOk store lease) :
    ∀ lease' ∈ leases ++ [lease], LeaseOk store lease' := by
  intro other member
  rcases List.mem_append.mp member with old | new
  · exact shapes other old
  · rw [List.mem_singleton.mp new]
    exact shape

theorem acquire_outcome (sound : Sound store world) {key : EcacheKey} (record : store.HasRecord key)
    (few : liveLeases world.leases key < 2 ^ 32 - 1) :
    Sound store (acquireExpert store world t key) ∧ ((acquireExpert store world t key).threads t = .reading key ∨
      ∃ lease, lease.key = some key ∧ (acquireExpert store world t key).leases = world.leases ++ [lease]) := by
  unfold acquireExpert
  rw [if_neg (by simp [record])]
  cases current : world.cache with
  | none =>
    obtain ⟨threads, idle⟩ := sound.uncached current
    refine ⟨⟨?_, fun _ => ⟨threads, ?_⟩, shapes_gives sound.shapes (.uncached key), sound.returned, sound.kept⟩, .inr ⟨_, rfl, rfl⟩⟩
    · intro cache present
      rw [show world.cache = some cache from present] at current
      cases current
    · intro lease member
      rcases List.mem_append.mp member with old | new
      · exact idle lease old
      · rw [List.mem_singleton.mp new]
        rfl
  | some cache =>
    dsimp only
    rcases lookup_spec (t := t) (sound.cached cache current) record few with ⟨d, result, held⟩ | ⟨d, payload, result, held⟩
    · rw [result]
      refine ⟨⟨?_, (fun none => nomatch none), sound.shapes, sound.returned, sound.kept⟩, .inl (by simp)⟩
      rintro _ ⟨⟩
      exact held
    · rw [result]
      refine ⟨⟨?_, (fun none => nomatch none), shapes_gives sound.shapes (.cached key payload), sound.returned,
        sound.kept⟩, .inr ⟨_, rfl, rfl⟩⟩
      rintro _ ⟨⟩
      exact held

theorem insert_result (sound : Sound store world) {key : EcacheKey} {payload : Handle} {cache : ExpertCache}
    (loaded : world.threads t = .loaded key payload) (current : world.cache = some cache) (absent : ¬ Resides cache key) :
    Sound store (insertLocked store world t key payload cache) ∧
      ∃ lease, lease.key = some key ∧ (insertLocked store world t key payload cache).leases = world.leases ++ [lease] := by
  obtain ⟨d, heap, lease, result, named, shape, held⟩ := insert_spec (sound.cached cache current) loaded absent
  rw [result]
  refine ⟨⟨?_, (fun none => nomatch none), shapes_gives sound.shapes shape, sound.returned, sound.kept⟩, lease, named, rfl⟩
  rintro _ ⟨⟩
  exact held

theorem release_sound (sound : Sound store world) (i : Nat) (left : MapleExpertLease → MapleExpertLease)
    (empty : ∀ lease, (left lease).live = false) (shape : ∀ lease, LeaseOk store (left lease)) :
    Sound store (releaseLease world i left) := by
  unfold releaseLease
  cases at_ : world.leases[i]? with
  | none => exact sound
  | some lease =>
    dsimp only
    have shapes : ∀ other ∈ world.leases.set i (left lease), LeaseOk store other := by
      intro other member
      rcases List.mem_or_eq_of_mem_set member with old | new
      · exact sound.shapes other old
      · rw [new]
        exact shape lease
    by_cases live : lease.live
    · cases current : world.cache with
      | none =>
        have idle := (sound.uncached current).2 lease (List.mem_of_getElem? at_)
        rw [live] at idle
        cases idle
      | some cache =>
        obtain ⟨d, result, held⟩ := unpin_spec (sound.cached cache current) current at_ live (empty lease)
        rw [result]
        refine ⟨?_, (fun none => nomatch none), shapes, sound.returned, sound.kept⟩
        rintro _ ⟨⟩
        exact held
    · have same : ∀ key, liveLeases (world.leases.set i (left lease)) key = liveLeases world.leases key := by
        intro key
        have moved := live_leases_set key at_ (empty lease)
        simpa [live] using moved
      unfold unpinLease
      rw [if_neg live]
      refine ⟨fun cache current => ?_, fun none => ⟨(sound.uncached none).1, fun other member => ?_⟩, shapes,
        sound.returned, sound.kept⟩
      · have held := sound.cached cache current
        refine { held with filled := fun j inside occupied => ?_, leased := fun other member alive => ?_ }
        · have filled := held.filled j inside occupied
          exact { filled with pinned := filled.pinned.trans (same _).symm }
        · rcases List.mem_or_eq_of_mem_set member with old | new
          · exact held.leased other old alive
          · rw [new, empty lease] at alive
            cases alive
      · rcases List.mem_or_eq_of_mem_set member with old | new
        · exact (sound.uncached none).2 other old
        · rw [new]
          exact empty lease

theorem release_at (at_ : world.leases[i]? = some lease) (left : MapleExpertLease → MapleExpertLease) :
    releaseLease world i left = { unpinLease world lease with leases := world.leases.set i (left lease) } := by
  unfold releaseLease
  rw [at_]

theorem release_nothing (at_ : world.leases[i]? = some {}) : releaseLease world i MapleExpertLease.released = world := by
  rw [release_at at_]
  obtain ⟨inside, empty⟩ := List.getElem?_eq_some_iff.mp at_
  have same : world.leases.set i (MapleExpertLease.released {}) = world.leases := by
    rw [show MapleExpertLease.released {} = world.leases[i] from empty.symm]
    exact List.set_getElem_self inside
  rw [same]
  rfl

theorem move_assign_at {j : Nat} (at_ : world.leases[j]? = some lease) (other : i ≠ j) (inside : i < world.leases.length) :
    moveAssign world i j =
      { releaseLease world i (fun _ => {}) with leases := (world.leases.set i lease).set j {} } := by
  unfold moveAssign
  rw [at_]
  dsimp only
  rw [if_neg (by omega), release_at (List.getElem?_eq_getElem inside), release_at (List.getElem?_eq_getElem inside)]

theorem move_assign_sound (sound : Sound store world) (i j : Nat) : Sound store (moveAssign world i j) := by
  cases at_ : world.leases[j]? with
  | none =>
    unfold moveAssign
    rw [at_]
    exact sound
  | some lease =>
    by_cases stays : i = j ∨ world.leases.length ≤ i
    · unfold moveAssign
      rw [at_]
      dsimp only
      rw [if_pos stays]
      exact sound
    · have other : i ≠ j := fun same => stays (.inl same)
      have inside : i < world.leases.length := Nat.lt_of_not_le fun past => stays (.inr past)
      have within := (List.getElem?_eq_some_iff.mp at_).1
      have released := release_sound sound i (fun _ => {}) (fun _ => rfl) (fun _ => shape_empty store)
      have leases : (releaseLease world i fun _ => {}).leases = world.leases.set i {} := by
        rw [release_at (List.getElem?_eq_getElem inside)]
      rw [move_assign_at at_ other inside]
      refine sound_moved released (fun key => ?_) (fun moved member => ?_)
      · have empty : (MapleExpertLease.live {}) = false := rfl
        have target : (world.leases.set i lease)[i]? = some lease := List.getElem?_set_self inside
        have source : (world.leases.set i lease)[j]? = some lease := by rw [List.getElem?_set_ne other, at_]
        have taken := live_leases_set key target empty
        have given := live_leases_set key source empty
        rw [List.set_set] at taken
        rw [leases]
        omega
      · rw [leases]
        obtain ⟨k, spot⟩ := List.mem_iff_getElem?.mp member
        by_cases source : k = j
        · rw [source, List.getElem?_set_self (by simpa using within)] at spot
          exact .inr (Option.some.inj spot).symm
        rw [List.getElem?_set_ne (Ne.symm source)] at spot
        left
        by_cases target : k = i
        · rw [target, List.getElem?_set_self inside] at spot
          refine List.mem_of_getElem? (i := j) ?_
          rw [List.getElem?_set_ne other, at_]
          exact spot
        · rw [List.getElem?_set_ne (Ne.symm target)] at spot
          refine List.mem_of_getElem? (i := k) ?_
          rw [List.getElem?_set_ne (Ne.symm target)]
          exact spot

theorem move_construct_sound (sound : Sound store world) (i : Nat) : Sound store (step store world (.moveConstruct i)) := by
  simp only [step]
  cases at_ : world.leases[i]? with
  | none => exact sound
  | some lease =>
    refine sound_moved sound (fun key => ?_) (fun moved member => ?_)
    · have empty : (MapleExpertLease.live {}) = false := rfl
      have taken := live_leases_set key at_ empty
      rw [live_leases_gives]
      exact taken
    · rcases List.mem_append.mp member with old | new
      · exact List.mem_or_eq_of_mem_set old
      · rw [List.mem_singleton.mp new]
        exact .inl (List.mem_of_getElem? at_)

theorem pressure_sound (sound : Sound store world) (level : EcachePressure) (targetBytes : UInt64) :
    Sound store (step store world (.pressure level targetBytes)) := by
  simp only [step]
  cases current : world.cache with
  | none => exact sound
  | some cache =>
    have held := sound.cached cache current
    obtain ⟨heap, result, kept⟩ := returned_evicts held (pressure_inv held.inv level targetBytes true)
      (pressure_evicts held.inv level targetBytes true) rfl
    dsimp only
    rw [result]
    refine ⟨?_, (fun none => nomatch none), sound.shapes, sound.returned, sound.kept⟩
    rintro _ ⟨⟩
    exact kept

theorem read_sound (sound : Sound store world) (t : Nat) (payload : Handle) : Sound store (step store world (.read t payload)) := by
  simp only [step]
  cases reads : world.threads t with
  | idle => exact sound
  | loaded key address => exact sound
  | reading key =>
    dsimp only
    by_cases fresh : payload ≠ 0 ∧ world.heap payload = none
    · rw [if_pos fresh]
      refine ⟨fun cache current => held_read (sound.cached cache current) reads fresh.1 fresh.2,
        fun none => ?_, sound.shapes, sound.returned, sound.kept⟩
      have idle := (sound.uncached none).1 t
      rw [reads] at idle
      cases idle
    · rw [if_neg fresh]
      exact sound

theorem step_sound (sound : Sound store world) (event : Event) (undisturbed : Undisturbed world event) :
    Sound store (step store world event) := by
  cases event with
  | acquire t key =>
    simp only [step]
    cases world.threads t with
    | reading _ => exact sound
    | loaded _ _ => exact sound
    | idle =>
      by_cases record : store.HasRecord key
      · exact (acquire_outcome sound record undisturbed).1
      · dsimp only
        unfold acquireExpert
        rw [if_pos record]
        exact sound_throws sound record
  | read t payload => exact read_sound sound t payload
  | insert t =>
    simp only [step]
    cases loads : world.threads t with
    | idle => exact sound
    | reading _ => exact sound
    | loaded key payload =>
      cases current : world.cache with
      | none => exact sound
      | some cache =>
        simp only [Undisturbed, loads, current, StillAbsent] at undisturbed
        exact (insert_result sound loads current undisturbed).1
  | release i =>
    exact release_sound sound i _ (fun _ => rfl) (fun lease => .released lease.uncached)
  | destroy i => exact release_sound sound i _ (fun _ => rfl) (fun _ => shape_empty store)
  | moveConstruct i => exact move_construct_sound sound i
  | moveAssign i j => exact move_assign_sound sound i j
  | pressure level targetBytes => exact pressure_sound sound level targetBytes

theorem sound_correct (sound : Sound store world) : LeasesCorrect store world where
  returned := sound.returned
  kept := sound.kept
  pinned cache current i inside occupied := ((sound.cached cache current).filled i inside occupied).pinned
  resident lease member live := by
    cases current : world.cache with
    | none =>
      have idle := (sound.uncached current).2 lease member
      rw [live] at idle
      cases idle
    | some cache =>
      obtain ⟨i, inside, occupied, behind⟩ := (sound.cached cache current).leased lease member live
      exact ⟨cache, rfl, i, inside, occupied, behind⟩
  seen lease member key named := by
    have shape := sound.shapes lease member
    cases shape with
    | released slab => cases named
    | uncached other =>
      cases named
      exact ⟨rfl, rfl⟩
    | cached other payload =>
      cases named
      refine ⟨?_, rfl⟩
      change world.heap payload = _
      cases current : world.cache with
      | none => exact nomatch (sound.uncached current).2 _ member
      | some cache =>
        have held := sound.cached cache current
        obtain ⟨i, inside, occupied, behind⟩ := held.leased _ member rfl
        have holds := (held.filled i inside occupied).holds
        rw [← behind.2, ← Option.some.inj behind.1] at holds
        exact holds

theorem sound_returns (sound : Sound store world) (t : Nat) (key : EcacheKey) : AcquireReturns store world t key where
  acquired idle record few := by
    simp only [step, idle]
    exact (acquire_outcome sound record few).2
  inserted payload loads absent := by
    cases current : world.cache with
    | none =>
      have idle := (sound.uncached current).1 t
      rw [loads] at idle
      cases idle
    | some cache =>
      simp only [step, loads, current]
      exact (insert_result sound loads current (absent cache current)).2

theorem unpin_lease_cache {a b : World} (same : a.cache = b.cache) (lease : MapleExpertLease) :
    (unpinLease a lease).cache = (unpinLease b lease).cache := by
  unfold unpinLease
  split
  · unfold unpinCached
    rw [same]
    cases b.cache with
    | none => exact same
    | some cache =>
      cases lease.key with
      | none => exact same
      | some key => rfl
  · exact same

theorem move_transfers (store : MapleExpertStore) (world : World) (i : Nat) : MoveTransfers store world i where
  emptied := by
    simp only [step]
    cases at_ : world.leases[i]? with
    | none =>
      unfold releaseLease
      rw [at_]
    | some lease =>
      have inside := (List.getElem?_eq_some_iff.mp at_).1
      refine release_nothing ?_
      change (world.leases.set i {} ++ [lease])[i]? = _
      rw [List.getElem?_append_left (by simpa using inside), List.getElem?_set_self inside]
  handed inside := by
    have at_ := List.getElem?_eq_getElem inside
    simp only [step, at_]
    rw [release_at at_]
    have last : (world.leases.set i {} ++ [world.leases[i]])[world.leases.length]? = some world.leases[i] := by simp
    rw [release_at last]
    dsimp only
    refine unpin_lease_cache ?_ _
    rfl
  emptiedByAssign target other within := by
    simp only [step]
    cases at_ : world.leases[i]? with
    | none =>
      have same : moveAssign world target i = world := by
        unfold moveAssign
        rw [at_]
      rw [same]
      unfold releaseLease
      rw [at_]
    | some lease =>
      have inside := (List.getElem?_eq_some_iff.mp at_).1
      rw [move_assign_at at_ other within]
      refine release_nothing ?_
      simp [inside]
  handedByAssign target other within inside := by
    have at_ := List.getElem?_eq_getElem inside
    have old := List.getElem?_eq_getElem within
    simp only [step]
    rw [move_assign_at at_ other within, release_at old, release_at old]
    have moved : ((world.leases.set target world.leases[i]).set i {})[target]? = some world.leases[i] := by
      simp [Ne.symm other, within]
    have stays : (world.leases.set target world.leases[target].released)[i]? = some world.leases[i] := by
      simp [other, inside]
    rw [release_at moved, release_at stays]
    dsimp only
    refine unpin_lease_cache ?_ _
    rfl

end Steps

theorem sound_new {store : MapleExpertStore} (cache : Option ExpertCache)
    (enabled : ∀ c, cache = some c → ∃ abi workspace user env, enableCache store abi workspace user env = .ok c) :
    Sound store { cache := cache } where
  cached c current := by
    obtain ⟨abi, workspace, user, env, opened⟩ := enabled c current
    obtain ⟨inv, _, vacant, layers, charged⟩ := enable_cache_spec opened
    refine ⟨inv, layers, charged, fun i _ occupied => ?_, fun _ none => (nomatch none), fun _ _ none => (nomatch none),
      fun _ _ _ none => (nomatch none), fun _ _ _ _ _ none => (nomatch none)⟩
    rw [vacant i] at occupied
    cases occupied
  uncached _ := ⟨fun _ => rfl, fun _ none => (nomatch none)⟩
  shapes _ none := nomatch none
  returned _ none := nomatch none
  kept := rfl

-- Any threads, any experts, any pressure, with a cache or without one.
theorem leases_correct (store : MapleExpertStore) (cache : Option ExpertCache)
    (enabled : ∀ c, cache = some c → ∃ abi workspace user env, enableCache store abi workspace user env = .ok c)
    (events : List Event) (undisturbed : Along (step store) Undisturbed { cache := cache } events) :
    LeasesCorrect store (run store cache events) ∧ (∀ t key, AcquireReturns store (run store cache events) t key) ∧
      ∀ i, MoveTransfers store (run store cache events) i := by
  have preserved : ∀ world event, Sound store world → Undisturbed world event → Sound store (step store world event) :=
    fun _ event sound good => step_sound sound event good
  have sound : Sound store (run store cache events) :=
    along_invariant preserved (sound_new cache enabled) events undisturbed
  exact ⟨sound_correct sound, sound_returns sound, move_transfers store _⟩

def twoExperts : MapleExpertStore where
  firstMoeLayer := 0
  numLayers := 1
  numExperts := 2
  expertLogicalBytes := 16
  contents key := List.replicate 16 key.expert.toUInt8
  layers := by decide
  fewLayers := by decide
  sized _ _ := List.length_replicate

def oneEntry : MapleExpertCacheConfig where
  budgetBytes := 16
  payloadAlignment := 16
  maxEntries := 0
  minEntriesPerLayer := 0

def oneEntryCache : Option ExpertCache := (enableCache twoExperts lp64 64 oneEntry .unset).toOption

theorem one_entry_enabled : ∀ c, oneEntryCache = some c →
    ∃ abi workspace user env, enableCache twoExperts abi workspace user env = .ok c := by
  intro c current
  refine ⟨lp64, 64, oneEntry, .unset, ?_⟩
  unfold oneEntryCache at current
  cases result : enableCache twoExperts lp64 64 oneEntry .unset with
  | error message =>
    rw [result] at current
    cases current
  | ok cache =>
    rw [result] at current
    rw [Option.some.inj current]

def firstExpert : EcacheKey := ⟨0, 0⟩

-- Two threads share an expert; its lease is moved and released, and pressure then takes the payload.
theorem leases_correct_shared :
    (oneEntryCache.isSome ∧ Along (step twoExperts) Undisturbed { cache := oneEntryCache }
      [.acquire 0 firstExpert, .read 0 8, .insert 0, .acquire 1 firstExpert, .moveConstruct 0, .release 0, .release 1,
        .release 2, .pressure .critical 0]) ∧
    LeasesCorrect twoExperts (run twoExperts oneEntryCache
      [.acquire 0 firstExpert, .read 0 8, .insert 0, .acquire 1 firstExpert, .moveConstruct 0, .release 0, .release 1,
        .release 2, .pressure .critical 0]) := by
  have good : oneEntryCache.isSome ∧ Along (step twoExperts) Undisturbed { cache := oneEntryCache }
      [.acquire 0 firstExpert, .read 0 8, .insert 0, .acquire 1 firstExpert, .moveConstruct 0, .release 0, .release 1,
        .release 2, .pressure .critical 0] := by
    decide
  exact ⟨good, (leases_correct twoExperts oneEntryCache one_entry_enabled _ good.2).1⟩

-- Both threads miss the expert, both read it, and the second insertion finds the first one's.
theorem second_loader_throws :
    ¬ ∀ (store : MapleExpertStore) (cache : Option ExpertCache),
      (∀ c, cache = some c → ∃ abi workspace user env, enableCache store abi workspace user env = .ok c) →
        ∀ events, LeasesCorrect store (run store cache events) := by
  intro always
  have thrown : Failure.insert .errExists ∈ (run twoExperts oneEntryCache
      [.acquire 0 firstExpert, .acquire 1 firstExpert, .read 0 8, .read 1 24, .insert 0, .insert 1]).thrown := by
    decide
  obtain ⟨key, same, _⟩ := (always twoExperts oneEntryCache one_entry_enabled _).returned _ thrown
  cases same

end SamosaChat.Maple
