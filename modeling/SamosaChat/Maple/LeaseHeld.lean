import SamosaChat.Maple.Lease

set_option autoImplicit false

namespace SamosaChat.Maple

open Utf8 Slots Ecache

inductive LeaseOk (store : MapleExpertStore) : MapleExpertLease → Prop
  | released (slab : Option Bytes) : LeaseOk store { uncached := slab }
  | cached (key : EcacheKey) (payload : Handle) : LeaseOk store (cachedLease key payload store.expertLogicalBytes)
  | uncached (key : EcacheKey) :
      LeaseOk store (uncachedLease key (store.contents key) store.expertLogicalBytes)

structure Filled (store : MapleExpertStore) (heap : Handle → Option Bytes) (leases : List MapleExpertLease)
    (entry : CacheEntry) : Prop where
  record : store.HasRecord entry.key
  logical : entry.baseLogical = store.expertLogicalBytes
  bare : entry.hasResidual = false
  holds : heap entry.basePayload = some (store.contents entry.key)
  pinned : entry.pinCount.toNat = liveLeases leases entry.key

def Behind (lease : MapleExpertLease) (entry : CacheEntry) : Prop :=
  lease.key = some entry.key ∧ lease.cachedPayload = entry.basePayload

structure Held (store : MapleExpertStore) (cache : ExpertCache) (heap : Handle → Option Bytes)
    (threads : Nat → Acquiring) (leases : List MapleExpertLease) : Prop where
  inv : Inv cache
  layers : cache.config.layerCount.toNat = store.numLayers
  charged : ∃ charge, payloadCharge cache.config store.expertLogicalBytes = .ok charge
  filled : ∀ i < cache.config.maxEntries.toNat, (cache.entries i).occupied → Filled store heap leases (cache.entries i)
  leased : ∀ lease ∈ leases, lease.live → ∃ i < cache.config.maxEntries.toNat,
    (cache.entries i).occupied ∧ Behind lease (cache.entries i)
  reading : ∀ t key, threads t = .reading key → store.HasRecord key
  loaded : ∀ t key payload, threads t = .loaded key payload → payload ≠ 0 ∧ store.HasRecord key ∧
    heap payload = some (store.contents key) ∧ ∀ i < cache.config.maxEntries.toNat, ¬ CarriesHandle (cache.entries i) payload
  apart : ∀ t u key other payload, threads t = .loaded key payload → threads u = .loaded other payload → t = u

section Counts

variable {leases : List MapleExpertLease} {key : EcacheKey}

theorem live_leases_gives (lease : MapleExpertLease) :
    liveLeases (leases ++ [lease]) key = liveLeases leases key + if lease.live && lease.key == some key then 1 else 0 := by
  simp [liveLeases, List.countP_append, List.countP_cons]

theorem live_leases_set (key : EcacheKey) {i : Nat} {lease left : MapleExpertLease} (at_ : leases[i]? = some lease)
    (empty : left.live = false) :
    liveLeases (leases.set i left) key + (if lease.live && lease.key == some key then 1 else 0) = liveLeases leases key := by
  obtain ⟨inside, rfl⟩ := List.getElem?_eq_some_iff.mp at_
  have counted := List.countP_set (p := fun lease => lease.live && lease.key == some key) (a := left) inside
  have among : (if leases[i].live && leases[i].key == some key then 1 else 0) ≤ liveLeases leases key := by
    split
    · rename_i here
      exact List.countP_pos_iff.mpr ⟨leases[i], List.getElem_mem inside, here⟩
    · exact Nat.zero_le _
  rw [empty] at counted
  unfold liveLeases at among ⊢
  rw [counted]
  simp only [Bool.false_and, Bool.false_eq_true, if_false, Nat.add_zero]
  exact Nat.sub_add_cancel among

theorem live_leases_none (none : ∀ lease ∈ leases, lease.live → lease.key ≠ some key) : liveLeases leases key = 0 := by
  refine List.countP_eq_zero.mpr fun lease member counted => ?_
  simp only [Bool.and_eq_true, beq_iff_eq] at counted
  exact none lease member counted.1 counted.2

end Counts

section Calls

variable {store : MapleExpertStore} {c d : ExpertCache} {heap : Handle → Option Bytes} {threads : Nat → Acquiring}
  {leases : List MapleExpertLease}

theorem filled_retouched {old new : CacheEntry} (filled : Filled store heap leases old) (touched : Retouched old new)
    (pins : new.pinCount = old.pinCount) : Filled store heap leases new where
  record := by rw [touched.key]; exact filled.record
  logical := touched.baseLogical.trans filled.logical
  bare := touched.hasResidual.trans filled.bare
  holds := by rw [touched.basePayload, touched.key]; exact filled.holds
  pinned := by rw [pins, touched.key]; exact filled.pinned

theorem behind_retouched {lease : MapleExpertLease} {old new : CacheEntry} (behind : Behind lease old)
    (touched : Retouched old new) : Behind lease new :=
  ⟨by rw [touched.key]; exact behind.1, by rw [touched.basePayload]; exact behind.2⟩

theorem retouches_each (touched : Retouches c d) (i : Nat) : Retouched (c.entries i) (d.entries i) := by
  obtain ⟨entries, clock, stats, layers, rfl, same, _, _⟩ := touched
  exact same i

section Holds

variable (held : Held store c heap threads leases)
include held

theorem held_same_pins (same : SamePins c d) : Held store d heap threads leases := by
  have config := retouches_config same.touched
  have each := retouches_each same.touched
  refine ⟨retouches_inv held.inv same.touched, by rw [config]; exact held.layers, by rw [config]; exact held.charged,
    ?_, ?_, held.reading, ?_, held.apart⟩
  · intro i inside occupied
    rw [config] at inside
    have was := held.filled i inside ((each i).occupied ▸ occupied)
    exact filled_retouched was (each i) (same.pins i)
  · intro lease member live
    obtain ⟨i, inside, occupied, behind⟩ := held.leased lease member live
    exact ⟨i, config ▸ inside, by rw [(each i).occupied]; exact occupied, behind_retouched behind (each i)⟩
  · intro t key payload loaded
    obtain ⟨nonzero, record, holds, unused⟩ := held.loaded t key payload loaded
    refine ⟨nonzero, record, holds, fun i inside carries => ?_⟩
    rw [config] at inside
    exact unused i inside ((retouched_carries (each i) payload).mp carries)

theorem leased_pinned {lease : MapleExpertLease} (member : lease ∈ leases)
    (live : lease.live) : ∃ i < c.config.maxEntries.toNat, (c.entries i).occupied ∧ Behind lease (c.entries i) ∧
      (c.entries i).pinCount ≠ 0 := by
  obtain ⟨i, inside, occupied, behind⟩ := held.leased lease member live
  refine ⟨i, inside, occupied, behind, fun zero => ?_⟩
  have counted := (held.filled i inside occupied).pinned
  rw [zero] at counted
  have none := List.countP_eq_zero.mp counted.symm lease member
  simp [live, behind.1] at none

theorem held_evicts (inv : Inv d) (evicts : Evicts c d)
    {events : List EcacheReleaseEvent} (logged : d.released = c.released ++ events) :
    Held store d (fun payload => if payload ∈ events.map (·.payload) then none else heap payload) threads leases ∧
      ∀ lease ∈ leases, lease.live → lease.cachedPayload ∉ events.map (·.payload) := by
  obtain ⟨events', logged', freed⟩ := evicts.released
  have same : events' = events := List.append_cancel_left (logged'.symm.trans logged)
  subst same
  have carried : ∀ payload ∈ events'.map (·.payload), (∃ j < c.config.maxEntries.toNat,
      CarriesHandle (c.entries j) payload ∧ (c.entries j).pinCount = 0) ∧
        ∀ i < c.config.maxEntries.toNat, ¬ CarriesHandle (d.entries i) payload := by
    intro payload member
    obtain ⟨event, listed, rfl⟩ := List.mem_map.mp member
    obtain ⟨⟨j, inside, occupied, unpinned, plane⟩, gone⟩ := freed event listed
    refine ⟨⟨j, inside, ⟨occupied, ?_⟩, unpinned⟩, gone⟩
    rcases plane with ⟨residual, same⟩ | same
    · exact .inr ⟨residual, by rw [same]; rfl⟩
    · exact .inl (by rw [same]; rfl)
  refine ⟨⟨inv, by rw [evicts.config]; exact held.layers, by rw [evicts.config]; exact held.charged, ?_, ?_,
    held.reading, ?_, held.apart⟩, ?_⟩
  · intro i inside occupied
    rw [evicts.config] at inside
    obtain ⟨was, key, payload, pins⟩ := shrunk_occupied (evicts.kept i) occupied
    have filled := held.filled i inside was
    have base := shrunk_base (evicts.kept i) occupied
    have stays : (d.entries i).basePayload ∉ events'.map (·.payload) := fun member =>
      (carried _ member).2 i inside ⟨occupied, .inl rfl⟩
    refine ⟨by rw [key]; exact filled.record, base.1.trans filled.logical, base.2 filled.bare, ?_,
      by rw [pins, key]; exact filled.pinned⟩
    rw [if_neg stays, payload, key]
    exact filled.holds
  · intro lease member live
    obtain ⟨i, inside, occupied, behind, pinned⟩ := leased_pinned held member live
    rw [← evicts.pinned i pinned] at occupied behind
    exact ⟨i, evicts.config ▸ inside, occupied, behind⟩
  · intro t key payload loaded
    obtain ⟨nonzero, record, holds, unused⟩ := held.loaded t key payload loaded
    refine ⟨nonzero, record, ?_, fun i inside carries => ?_⟩
    · rw [if_neg fun member => ?_]
      · exact holds
      · obtain ⟨⟨j, inside, carries, _⟩, _⟩ := carried _ member
        exact unused j inside carries
    · rw [evicts.config] at inside
      exact unused i inside (shrunk_carries (evicts.kept i) carries)
  · intro lease member live freed
    obtain ⟨i, inside, occupied, behind, pinned⟩ := leased_pinned held member live
    obtain ⟨⟨j, within, carries, unpinned⟩, _⟩ := carried _ freed
    have one := held.inv.entries.handles i inside j within _ ⟨occupied, .inl behind.2.symm⟩ carries
    exact pinned (one ▸ unpinned)

theorem held_thread (t : Nat) (now : Acquiring)
    (record : ∀ key, now = .reading key → store.HasRecord key) (empty : ∀ key payload, now ≠ .loaded key payload) :
    Held store c heap (write threads t now) leases := by
  have others : ∀ u key payload, write threads t now u = .loaded key payload → threads u = .loaded key payload := by
    intro u key payload loaded
    by_cases here : u = t
    · rw [here, write_same] at loaded
      exact absurd loaded (empty key payload)
    · rwa [write_other _ _ _ _ here] at loaded
  refine { held with reading := ?_, loaded := ?_, apart := ?_ }
  · intro u key reading
    by_cases here : u = t
    · rw [here, write_same] at reading
      exact record key reading
    · rw [write_other _ _ _ _ here] at reading
      exact held.reading u key reading
  · exact fun u key payload loaded => held.loaded u key payload (others u key payload loaded)
  · intro u v key other payload first second
    exact held.apart u v key other payload (others u key payload first) (others v other payload second)

variable {key : EcacheKey} {payload : Handle} {t : Nat}

theorem held_carries {i : Nat} (inside : i < c.config.maxEntries.toNat)
    (carries : CarriesHandle (c.entries i) payload) : heap payload ≠ none := by
  obtain ⟨occupied, base | ⟨residual, _⟩⟩ := carries
  · have filled := (held.filled i inside occupied).holds
    rw [base] at filled
    rw [filled]
    exact nofun
  · exact absurd residual (by rw [(held.filled i inside occupied).bare]; decide)

theorem held_read (reading : threads t = .reading key) (nonzero : payload ≠ 0) (free : heap payload = none) :
    Held store c (write heap payload (some (store.contents key))) (write threads t (.loaded key payload)) leases := by
  have kept : ∀ other bytes, heap other = some bytes → write heap payload (some (store.contents key)) other = some bytes := by
    intro other bytes holds
    have apart : other ≠ payload := by
      rintro rfl
      rw [free] at holds
      cases holds
    rwa [write_other _ _ _ _ apart]
  refine { held with filled := ?_, reading := ?_, loaded := ?_, apart := ?_ }
  · intro i inside occupied
    have filled := held.filled i inside occupied
    exact { filled with holds := kept _ _ filled.holds }
  · intro u other reads
    by_cases here : u = t
    · rw [here, write_same] at reads
      cases reads
    · rw [write_other _ _ _ _ here] at reads
      exact held.reading u other reads
  · intro u other address loaded
    by_cases here : u = t
    · rw [here, write_same] at loaded
      cases loaded
      exact ⟨nonzero, held.reading t _ reading, by rw [write_same], fun i inside carries => held_carries held inside carries free⟩
    · rw [write_other _ _ _ _ here] at loaded
      obtain ⟨positive, record, holds, unused⟩ := held.loaded u other address loaded
      exact ⟨positive, record, kept _ _ holds, unused⟩
  · have fresh : ∀ u other, threads u ≠ .loaded other payload := by
      intro u other loaded
      have holds := (held.loaded u other payload loaded).2.2.1
      rw [free] at holds
      cases holds
    intro u v first second address one two
    by_cases here : u = t <;> by_cases there : v = t
    · exact here.trans there.symm
    · rw [here, write_same] at one
      rw [write_other _ _ _ _ there] at two
      cases one
      exact absurd two (fresh v second)
    · rw [write_other _ _ _ _ here] at one
      rw [there, write_same] at two
      cases two
      exact absurd one (fresh u first)
    · rw [write_other _ _ _ _ here] at one
      rw [write_other _ _ _ _ there] at two
      exact held.apart u v first second address one two

theorem held_settled (t : Nat) : Held store c heap (write threads t .idle) leases :=
  held_thread held t .idle (fun _ none => nomatch none) (fun _ _ none => nomatch none)

theorem held_freed (loaded : threads t = .loaded key payload) :
    Held store c (write heap payload none) (write threads t .idle) leases := by
  obtain ⟨_, _, _, unused⟩ := held.loaded t key payload loaded
  have settled := held_settled held t
  refine { settled with filled := ?_, loaded := ?_ }
  · intro i inside occupied
    have filled := held.filled i inside occupied
    have other : (c.entries i).basePayload ≠ payload := fun same => unused i inside ⟨occupied, .inl same⟩
    exact { filled with holds := by rw [write_other _ _ _ _ other]; exact filled.holds }
  · intro u second address loads
    obtain ⟨positive, record, holds, free⟩ := settled.loaded u second address loads
    have elsewhere : u ≠ t := by
      rintro rfl
      rw [write_same] at loads
      cases loads
    rw [write_other _ _ _ _ elsewhere] at loads
    have other : address ≠ payload := by
      rintro rfl
      exact elsewhere (held.apart u t second key address loads loaded)
    exact ⟨positive, record, by rw [write_other _ _ _ _ other]; exact holds, free⟩

theorem held_repinned (touched : Retouches c d) {i : Nat} {pins : UInt32} {leases' : List MapleExpertLease}
    (inside : i < c.config.maxEntries.toNat) (occupied : (c.entries i).occupied)
    (entries : d.entries = write c.entries i { c.entries i with pinCount := pins })
    (counted : pins.toNat = liveLeases leases' (c.entries i).key)
    (others : ∀ key ≠ (c.entries i).key, liveLeases leases' key = liveLeases leases key)
    (known : ∀ lease ∈ leases', lease.live → lease ∈ leases ∨ Behind lease (c.entries i)) :
    Held store d heap threads leases' := by
  have config := retouches_config touched
  have each := retouches_each touched
  refine ⟨retouches_inv held.inv touched, by rw [config]; exact held.layers, by rw [config]; exact held.charged,
    ?_, ?_, held.reading, ?_, held.apart⟩
  · intro j within taken
    rw [config] at within
    rw [entries] at taken ⊢
    by_cases here : j = i
    · subst here
      rw [write_same]
      have filled := held.filled j inside occupied
      exact ⟨filled.record, filled.logical, filled.bare, filled.holds, counted⟩
    · rw [write_other _ _ _ _ here] at taken ⊢
      have filled := held.filled j within taken
      have apart : (c.entries j).key ≠ (c.entries i).key :=
        fun same => here (held.inv.entries.keys j within i inside taken occupied same)
      exact ⟨filled.record, filled.logical, filled.bare, filled.holds, filled.pinned.trans (others _ apart).symm⟩
  · intro lease member live
    rcases known lease member live with old | behind
    · obtain ⟨j, within, taken, behind⟩ := held.leased lease old live
      exact ⟨j, config ▸ within, by rw [(each j).occupied]; exact taken, behind_retouched behind (each j)⟩
    · exact ⟨i, config ▸ inside, by rw [(each i).occupied]; exact occupied, behind_retouched behind (each i)⟩
  · intro t key payload loaded
    obtain ⟨nonzero, record, holds, unused⟩ := held.loaded t key payload loaded
    refine ⟨nonzero, record, holds, fun j within carries => ?_⟩
    rw [config] at within
    exact unused j within ((retouched_carries (each j) payload).mp carries)

theorem absent_leases (absent : ¬ Resides c key) : liveLeases leases key = 0 := by
  refine live_leases_none fun lease member live named => ?_
  obtain ⟨i, inside, occupied, behind⟩ := held.leased lease member live
  exact absent ⟨i, inside, occupied, Option.some.inj (behind.1.symm.trans named)⟩

theorem held_admitted (inv : Inv d) (config : d.config = c.config) {slot : Nat} {request : Admission} {charge order : UInt64}
    (vacant : (c.entries slot).occupied = false) (loaded : threads t = .loaded key payload)
    (named : request.payload = payload) (sized : request.logicalBytes = store.expertLogicalBytes)
    (absent : ¬ Resides c key) (entry : d.entries slot = newEntry key request charge order)
    (others : ∀ i ≠ slot, Retouched (c.entries i) (d.entries i) ∧ (d.entries i).pinCount = (c.entries i).pinCount) :
    Held store d heap (write threads t .idle) leases := by
  have settled := held_settled held t
  obtain ⟨_, record, holds, unused⟩ := held.loaded t key payload loaded
  refine ⟨inv, by rw [config]; exact held.layers, by rw [config]; exact held.charged, ?_, ?_, settled.reading, ?_, settled.apart⟩
  · intro i inside occupied
    rw [config] at inside
    by_cases here : i = slot
    · rw [here, entry]
      refine ⟨record, sized, rfl, ?_, (absent_leases held absent).symm⟩
      change heap request.payload = _
      rw [named]
      exact holds
    · obtain ⟨touched, pins⟩ := others i here
      exact filled_retouched (held.filled i inside (touched.occupied ▸ occupied)) touched pins
  · intro lease member live
    obtain ⟨i, inside, occupied, behind⟩ := held.leased lease member live
    have elsewhere : i ≠ slot := by
      rintro rfl
      rw [vacant] at occupied
      cases occupied
    obtain ⟨touched, _⟩ := others i elsewhere
    exact ⟨i, config ▸ inside, by rw [touched.occupied]; exact occupied, behind_retouched behind touched⟩
  · intro u second address loads
    obtain ⟨positive, known, stored, free⟩ := settled.loaded u second address loads
    refine ⟨positive, known, stored, fun i inside carries => ?_⟩
    rw [config] at inside
    by_cases here : i = slot
    · rw [here, entry] at carries
      obtain ⟨_, base | ⟨residual, _⟩⟩ := carries
      · have same : address = payload := base.symm.trans named
        have elsewhere : u ≠ t := by
          rintro rfl
          rw [write_same] at loads
          cases loads
        rw [write_other _ _ _ _ elsewhere, same] at loads
        exact elsewhere (held.apart u t second key payload loads loaded)
      · cases residual
    · exact free i inside ((retouched_carries (others i here).1 address).mp carries)

end Holds

end Calls

end SamosaChat.Maple
