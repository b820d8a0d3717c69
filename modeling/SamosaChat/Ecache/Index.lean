import SamosaChat.Ecache.Types
import SamosaChat.Lib.Probing

set_option autoImplicit false

namespace SamosaChat.Ecache

open Slots Probing Words

def hashKey (key : EcacheKey) : UInt64 :=
  let x := (key.layer.toUInt64 <<< 32) ||| key.expert.toUInt64
  let x := x + 0x9e3779b97f4a7c15
  let x := (x ^^^ (x >>> 30)) * 0xbf58476d1ce4e5b9
  let x := (x ^^^ (x >>> 27)) * 0x94d049bb133111eb
  x ^^^ (x >>> 31)

-- On a miss, `bucket` is none where the C leaves HASH_EMPTY in it.
inductive HashFind where
  | found (bucket slot : Nat)
  | missing (bucket : Option Nat)
deriving DecidableEq

def probeBucket (bucketCount : UInt32) (key : EcacheKey) (probe : Nat) : Nat :=
  let mask := bucketCount - 1
  let start := (hashKey key).toUInt32 &&& mask
  ((start + UInt32.ofNat probe) &&& mask).toNat

def hashFindLoop (c : ExpertCache) (key : EcacheKey) : Nat → Nat → Option Nat → HashFind
  | 0, _, firstTombstone => .missing firstTombstone
  | rounds + 1, probe, firstTombstone =>
    let b := probeBucket c.bucketCount key probe
    match c.buckets b with
    | .empty => .missing (firstTombstone.or (some b))
    | .tombstone => hashFindLoop c key rounds (probe + 1) (firstTombstone.or (some b))
    | .slot value =>
      if value < c.slotCount ∧ (c.entries value).occupied ∧ (c.entries value).key = key then
        .found b value
      else hashFindLoop c key rounds (probe + 1) firstTombstone

def hashFind (c : ExpertCache) (key : EcacheKey) : HashFind :=
  hashFindLoop c key c.bucketCount.toNat 0 none

-- A miss without a usable bucket would be an out-of-bounds store at HASH_EMPTY.
def rebuildSlot (c : ExpertCache) (i : Nat) : ExpertCache :=
  if (c.entries i).occupied then
    match hashFind c (c.entries i).key with
    | .found bucket _ => { c with buckets := write c.buckets bucket (.slot i) }
    | .missing (some bucket) => { c with buckets := write c.buckets bucket (.slot i) }
    | .missing none => c
  else c

def hashRebuild (c : ExpertCache) : ExpertCache :=
  (List.range c.slotCount).foldl rebuildSlot
    { c with
      buckets := fun b => if b < c.bucketCount.toNat then .empty else c.buckets b
      tombstones := 0 }

def hashErase (c : ExpertCache) (key : EcacheKey) : ExpertCache :=
  match hashFind c key with
  | .missing _ => c
  | .found bucket _ =>
    { c with buckets := write c.buckets bucket .tombstone, tombstones := c.tombstones + 1 }

def cellOf (entries : Nat → CacheEntry) : Bucket → Cell EcacheKey
  | .empty => .vacant
  | .tombstone => .deleted
  | .slot index => .full (entries index).key

def tombstoneOf : Bucket → Nat
  | .tombstone => 1
  | _ => 0

structure IndexUpto (upto slots : Nat) (bucketCount : UInt32) (entries : Nat → CacheEntry)
    (buckets : Nat → Bucket) (tombstones : UInt32) : Prop where
  refers : ∀ b < bucketCount.toNat, ∀ s, buckets b = .slot s →
    s < upto ∧ s < slots ∧ (entries s).occupied
  indexed : ∀ s < upto, s < slots → (entries s).occupied → ∃ b < bucketCount.toNat, buckets b = .slot s
  formed : WellFormed bucketCount.toNat (probeBucket bucketCount) (fun b => cellOf entries (buckets b))
  marks : tombstones.toNat = total bucketCount.toNat buckets tombstoneOf

abbrev IndexOk (slots : Nat) := IndexUpto slots slots

structure SizesOk (slots : Nat) (bucketCount : UInt32) : Prop where
  power : ∃ k ≤ 31, bucketCount.toNat = 2 ^ k
  half : slots * 2 ≤ bucketCount.toNat
  some : 0 < slots

def KeysDistinct (slots : Nat) (entries : Nat → CacheEntry) : Prop :=
  ∀ i < slots, ∀ j < slots, (entries i).occupied → (entries j).occupied →
    (entries i).key = (entries j).key → i = j

variable {bucketCount : UInt32} {slots : Nat}

theorem probe_bucket_mod (sizes : SizesOk slots bucketCount) (key : EcacheKey) (probe : Nat) :
    probeBucket bucketCount key probe = ((hashKey key).toUInt32.toNat + probe) % bucketCount.toNat := by
  obtain ⟨k, small, power⟩ := sizes.power
  have positive : 1 ≤ 2 ^ k := Nat.one_le_two_pow
  have mask : (bucketCount - 1).toNat = 2 ^ k - 1 := by
    rw [u32_sub _ _ (by rw [power]; exact positive), power]
    rfl
  have divides : 2 ^ k ∣ 2 ^ 32 := Nat.pow_dvd_pow 2 (by omega)
  simp only [probeBucket, UInt32.toNat_and, UInt32.toNat_add, mask, Nat.and_two_pow_sub_one_eq_mod,
    power, UInt32.toNat_ofNat', Nat.mod_mod_of_dvd _ divides]
  rw [Nat.mod_add_mod, Nat.add_mod, Nat.mod_mod_of_dvd _ divides, ← Nat.add_mod]

theorem probe_covering (sizes : SizesOk slots bucketCount) : Covering bucketCount.toNat (probeBucket bucketCount) := by
  have same : probeBucket bucketCount =
      fun key i => ((hashKey key).toUInt32.toNat + i) % bucketCount.toNat := by
    funext key i
    exact probe_bucket_mod sizes key i
  rw [same]
  have half := sizes.half
  have some := sizes.some
  exact linear_covering (fun key => (hashKey key).toUInt32.toNat) (by omega)

def ofOutcome (buckets : Nat → Bucket) : Outcome → HashFind
  | .hit cell =>
    match buckets cell with
    | .slot value => .found cell value
    | _ => .missing none
  | .miss free => .missing free

theorem hash_find_loop_eq (c : ExpertCache) (key : EcacheKey)
    (refers : ∀ b, ∀ s, c.buckets (probeBucket c.bucketCount key b) = .slot s → s < c.slotCount ∧ (c.entries s).occupied)
    (rounds probe : Nat) (free : Option Nat) : hashFindLoop c key rounds probe free =
      ofOutcome c.buckets (search (fun b => cellOf c.entries (c.buckets b))
        (probeBucket c.bucketCount key) key rounds probe free) := by
  induction rounds generalizing probe free with
  | zero => rfl
  | succ rounds ih =>
    rw [hashFindLoop, search]
    cases here : c.buckets (probeBucket c.bucketCount key probe) with
    | empty => rfl
    | tombstone => exact ih (probe + 1) _
    | slot value =>
      have live := refers probe value here
      by_cases same : (c.entries value).key = key
      · simp [cellOf, same, live, ofOutcome, here]
      · simp [cellOf, same, ih]

variable {tombstones : UInt32} {upto : Nat}

theorem hash_find_eq (c : ExpertCache) (key : EcacheKey) (sizes : SizesOk c.slotCount c.bucketCount)
    (index : IndexUpto upto c.slotCount c.bucketCount c.entries c.buckets tombstones) :
    hashFind c key = ofOutcome c.buckets (find c.bucketCount.toNat (probeBucket c.bucketCount)
      (fun b => cellOf c.entries (c.buckets b)) key) := by
  apply hash_find_loop_eq
  intro b s here
  have live := index.refers _ ((probe_covering sizes).inside key b) s here
  exact ⟨live.2.1, live.2.2⟩

variable {buckets : Nat → Bucket}

variable {entries : Nat → CacheEntry}

theorem cell_full (index : IndexUpto upto slots bucketCount entries buckets tombstones)
    (key : EcacheKey) (b : Nat) (inside : b < bucketCount.toNat) (full : cellOf entries (buckets b) = .full key) :
    ∃ s < upto, s < slots ∧ (entries s).occupied ∧ (entries s).key = key ∧ buckets b = .slot s := by
  cases here : buckets b with
  | empty => simp [here, cellOf] at full
  | tombstone => simp [here, cellOf] at full
  | slot s =>
    obtain ⟨before, within, occupied⟩ := index.refers b inside s here
    refine ⟨s, before, within, occupied, ?_, rfl⟩
    simpa [here, cellOf] using full

theorem bucket_unique (index : IndexUpto upto slots bucketCount entries buckets tombstones)
    (a b s : Nat) (insideA : a < bucketCount.toNat) (insideB : b < bucketCount.toNat)
    (atA : buckets a = .slot s) (atB : buckets b = .slot s) : a = b :=
  index.formed.unique a insideA b insideB (entries s).key (by simp [atA, cellOf]) (by simp [atB, cellOf])

theorem hash_find_occupied (c : ExpertCache) (s : Nat) (sizes : SizesOk c.slotCount c.bucketCount)
    (index : IndexOk c.slotCount c.bucketCount c.entries c.buckets tombstones)
    (inside : s < c.slotCount) (occupied : (c.entries s).occupied) :
    ∃ b < c.bucketCount.toNat, c.buckets b = .slot s ∧ hashFind c (c.entries s).key = .found b s := by
  obtain ⟨b, bound, here⟩ := index.indexed s inside inside occupied
  refine ⟨b, bound, here, ?_⟩
  rw [hash_find_eq c _ sizes index, find_present (probe_covering sizes) index.formed _ b bound (by simp [here, cellOf])]
  simp [ofOutcome, here]

theorem hash_find_found (c : ExpertCache) (key : EcacheKey) (b s : Nat) (sizes : SizesOk c.slotCount c.bucketCount)
    (index : IndexOk c.slotCount c.bucketCount c.entries c.buckets tombstones) (found : hashFind c key = .found b s) :
    s < c.slotCount ∧ (c.entries s).occupied ∧ (c.entries s).key = key := by
  rw [hash_find_eq c _ sizes index] at found
  cases outcome : find c.bucketCount.toNat (probeBucket c.bucketCount)
      (fun b => cellOf c.entries (c.buckets b)) key with
  | miss free => simp [outcome, ofOutcome] at found
  | hit cell =>
    obtain ⟨inside, full⟩ := find_hit (probe_covering sizes) key cell outcome
    obtain ⟨slot, _, within, occupied, same, here⟩ := cell_full index key cell inside full
    rw [outcome, ofOutcome, here] at found
    cases found
    exact ⟨within, occupied, same⟩

theorem bucket_spare (sizes : SizesOk slots bucketCount) (index : IndexUpto upto slots bucketCount entries buckets tombstones) :
    ∃ b < bucketCount.toNat, ∀ s, buckets b ≠ .slot s := by
  by_contra crowded
  push Not at crowded
  choose! refers at_ using crowded
  have half := sizes.half
  have some := sizes.some
  obtain ⟨a, memberA, b, memberB, different, same⟩ :=
    Finset.exists_ne_map_eq_of_card_lt_of_maps_to (s := Finset.range bucketCount.toNat)
      (t := Finset.range slots) (f := refers) (by simp only [Finset.card_range]; omega)
      (fun b member => Finset.mem_coe.mpr (Finset.mem_range.mpr
        (index.refers b (Finset.mem_range.mp member) _ (at_ b (Finset.mem_range.mp member))).2.1))
  have insideA := Finset.mem_range.mp memberA
  have insideB := Finset.mem_range.mp memberB
  exact different (bucket_unique index a b (refers a) insideA insideB (at_ a insideA)
    (same ▸ at_ b insideB))

theorem hash_find_absent (c : ExpertCache) (key : EcacheKey) (sizes : SizesOk c.slotCount c.bucketCount)
    (index : IndexUpto upto c.slotCount c.bucketCount c.entries c.buckets tombstones)
    (absent : ∀ s < upto, s < c.slotCount → (c.entries s).occupied → (c.entries s).key ≠ key) :
    ∃ b < c.bucketCount.toNat, hashFind c key = .missing (some b) ∧ (c.buckets b = .tombstone ∨ c.buckets b = .empty) ∧
      ¬ Holds c.bucketCount.toNat (fun b => cellOf c.entries (c.buckets b)) key ∧
      ∃ i < c.bucketCount.toNat, probeBucket c.bucketCount key i = b ∧
        ∀ j < i, cellOf c.entries (c.buckets (probeBucket c.bucketCount key j)) ≠ .vacant := by
  have covering := probe_covering sizes
  have missing : ¬ Holds c.bucketCount.toNat (fun b => cellOf c.entries (c.buckets b)) key := by
    intro ⟨b, inside, full⟩
    obtain ⟨s, before, within, occupied, same, _⟩ := cell_full index key b inside full
    exact absent s before within occupied same
  rw [hash_find_eq c _ sizes index]
  cases outcome : find c.bucketCount.toNat (probeBucket c.bucketCount)
      (fun b => cellOf c.entries (c.buckets b)) key with
  | hit cell =>
    obtain ⟨inside, full⟩ := find_hit covering key cell outcome
    exact absurd ⟨cell, inside, full⟩ missing
  | miss free =>
    obtain ⟨spare, inside, unused⟩ := bucket_spare sizes index
    obtain ⟨b, rfl⟩ := find_miss_some covering key free outcome spare inside (by
      intro other full
      obtain ⟨s, _, _, _, _, here⟩ := cell_full index other spare inside full
      exact unused s here)
    obtain ⟨within, usable, chain⟩ := find_miss_free covering key b outcome
    refine ⟨b, within, rfl, ?_, missing, chain⟩
    cases here : c.buckets b with
    | empty => exact .inr rfl
    | tombstone => exact .inl rfl
    | slot s => simp [here, cellOf] at usable

theorem index_fill (index : IndexUpto upto slots bucketCount entries buckets tombstones)
    (b s : Nat) (free : buckets b = .tombstone ∨ buckets b = .empty)
    (fresh : ¬ Holds bucketCount.toNat (fun b => cellOf entries (buckets b)) (entries s).key)
    (chain : ∃ i < bucketCount.toNat, probeBucket bucketCount (entries s).key i = b ∧
      ∀ j < i, cellOf entries (buckets (probeBucket bucketCount (entries s).key j)) ≠ .vacant) :
    WellFormed bucketCount.toNat (probeBucket bucketCount) (fun x => cellOf entries (write buckets b (.slot s) x)) := by
  have filled := fill_well_formed index.formed (entries s).key b fresh
    (by rcases free with here | here <;> simp [here, cellOf]) chain
  have same : (fun x => cellOf entries (write buckets b (.slot s) x)) =
      write (fun x => cellOf entries (buckets x)) b (.full (entries s).key) := by
    funext x
    by_cases here : x = b
    · simp [here, cellOf]
    · simp [here]
  rw [same]
  exact filled

theorem cells_congr {others : Nat → CacheEntry} (sizes : SizesOk slots bucketCount)
    (index : IndexUpto upto slots bucketCount entries buckets tombstones)
    (same : ∀ s < upto, s < slots → (entries s).occupied → (entries s).key = (others s).key) :
    WellFormed bucketCount.toNat (probeBucket bucketCount) (fun b => cellOf others (buckets b)) := by
  refine well_formed_congr _ (probe_covering sizes) (fun b inside => ?_) index.formed
  cases here : buckets b with
  | empty => rfl
  | tombstone => rfl
  | slot s =>
    obtain ⟨before, within, occupied⟩ := index.refers b inside s here
    simp only [cellOf, same s before within occupied]

theorem index_congr {others : Nat → CacheEntry} (sizes : SizesOk slots bucketCount)
    (index : IndexOk slots bucketCount entries buckets tombstones)
    (same : ∀ s < slots, (entries s).occupied = (others s).occupied ∧ (entries s).key = (others s).key) :
    IndexOk slots bucketCount others buckets tombstones where
  refers b inside s here := by
    obtain ⟨before, within, occupied⟩ := index.refers b inside s here
    exact ⟨before, within, (same s within).1 ▸ occupied⟩
  indexed s before within occupied :=
    index.indexed s before within ((same s within).1 ▸ occupied)
  formed := cells_congr sizes index (fun s _ within _ => (same s within).2)
  marks := index.marks

theorem rebuild_slot_spec (c : ExpertCache) (i : Nat) (sizes : SizesOk c.slotCount c.bucketCount)
    (keys : KeysDistinct c.slotCount c.entries) (inside : i < c.slotCount)
    (index : IndexUpto i c.slotCount c.bucketCount c.entries c.buckets 0) :
    ∃ buckets, rebuildSlot c i = { c with buckets := buckets } ∧
      IndexUpto (i + 1) c.slotCount c.bucketCount c.entries buckets 0 := by
  by_cases occupied : (c.entries i).occupied
  · obtain ⟨b, bound, found, free, fresh, chain⟩ := hash_find_absent c (c.entries i).key sizes index
      (fun s before within live same => by
        have equal := keys s within i inside live occupied same
        omega)
    have empty : c.buckets b = .empty := by
      rcases free with mark | empty
      · have none := (total_zero_iff _ _ _).mp index.marks.symm b bound
        simp [mark, tombstoneOf] at none
      · exact empty
    refine ⟨write c.buckets b (.slot i), by simp [rebuildSlot, occupied, found], ?_⟩
    refine ⟨?_, ?_, index_fill index b i free fresh chain, ?_⟩
    · intro x within s here
      by_cases same : x = b
      · simp only [same, write_same, Bucket.slot.injEq] at here
        subst here
        exact ⟨by omega, inside, occupied⟩
      · rw [write_other _ _ _ _ same] at here
        obtain ⟨before, bounded, live⟩ := index.refers x within s here
        exact ⟨by omega, bounded, live⟩
    · intro s before within live
      by_cases same : s = i
      · exact ⟨b, bound, by simp [same]⟩
      · obtain ⟨x, inX, here⟩ := index.indexed s (by omega) within live
        refine ⟨x, inX, ?_⟩
        by_cases clash : x = b
        · rw [clash, empty] at here
          cases here
        · rw [write_other _ _ _ _ clash]
          exact here
    · have counted := total_write c.bucketCount.toNat c.buckets tombstoneOf b (.slot i) bound
      have marks := index.marks
      simp only [empty, tombstoneOf] at counted
      omega
  · refine ⟨c.buckets, by simp [rebuildSlot, occupied], ⟨?_, ?_, index.formed, index.marks⟩⟩
    · intro b within s here
      obtain ⟨before, rest⟩ := index.refers b within s here
      exact ⟨by omega, rest⟩
    · intro s before within live
      by_cases same : s = i
      · exact absurd (same ▸ live) occupied
      · exact index.indexed s (by omega) within live

theorem rebuild_prefix_spec (c : ExpertCache) (sizes : SizesOk c.slotCount c.bucketCount)
    (keys : KeysDistinct c.slotCount c.entries) (index : IndexUpto 0 c.slotCount c.bucketCount c.entries c.buckets 0)
    (upto : Nat) (bound : upto ≤ c.slotCount) :
    ∃ buckets, (List.range upto).foldl rebuildSlot c = { c with buckets := buckets } ∧
      IndexUpto upto c.slotCount c.bucketCount c.entries buckets 0 := by
  induction upto with
  | zero => exact ⟨c.buckets, rfl, index⟩
  | succ upto ih =>
    obtain ⟨before, reached, entered⟩ := ih (by omega)
    obtain ⟨after, stepped, done⟩ :=
      rebuild_slot_spec { c with buckets := before } upto sizes keys bound entered
    refine ⟨after, ?_, done⟩
    rw [List.range_succ, List.foldl_append, reached, List.foldl_cons, List.foldl_nil, stepped]

theorem hash_rebuild_spec (c : ExpertCache) (sizes : SizesOk c.slotCount c.bucketCount)
    (keys : KeysDistinct c.slotCount c.entries) :
    ∃ buckets, hashRebuild c = { c with buckets := buckets, tombstones := 0 } ∧
      IndexOk c.slotCount c.bucketCount c.entries buckets 0 := by
  have cleared : IndexUpto 0 c.slotCount c.bucketCount c.entries
      (fun b => if b < c.bucketCount.toNat then Bucket.empty else c.buckets b) 0 := by
    refine ⟨?_, fun s before => by omega, vacant_well_formed (fun b inside => by simp [inside, cellOf]), ?_⟩
    · intro b inside s here
      simp [inside] at here
    · symm
      apply (total_zero_iff _ _ _).mpr
      intro b inside
      simp [inside, tombstoneOf]
  exact rebuild_prefix_spec { c with
    buckets := fun b => if b < c.bucketCount.toNat then .empty else c.buckets b
    tombstones := 0 } sizes keys cleared c.slotCount (Nat.le_refl _)

theorem tombstone_le (b : Bucket) : tombstoneOf b ≤ 1 := by
  cases b <;> simp [tombstoneOf]

theorem hash_erase_spec (c : ExpertCache) (s : Nat) (sizes : SizesOk c.slotCount c.bucketCount)
    (index : IndexOk c.slotCount c.bucketCount c.entries c.buckets c.tombstones)
    (inside : s < c.slotCount) (occupied : (c.entries s).occupied) :
    ∃ buckets, hashErase c (c.entries s).key =
        { c with buckets := buckets, tombstones := c.tombstones + 1 } ∧
      IndexOk c.slotCount c.bucketCount (write c.entries s {}) buckets (c.tombstones + 1) := by
  obtain ⟨b, bound, here, found⟩ := hash_find_occupied c s sizes index inside occupied
  refine ⟨write c.buckets b .tombstone, by simp [hashErase, found], ?_⟩
  have others : ∀ x < c.bucketCount.toNat, ∀ t, write c.buckets b .tombstone x = .slot t →
      x ≠ b ∧ c.buckets x = .slot t ∧ t ≠ s := by
    intro x within t at_
    by_cases same : x = b
    · simp [same] at at_
    · rw [write_other _ _ _ _ same] at at_
      exact ⟨same, at_, fun clash => same (bucket_unique index x b s within bound (clash ▸ at_) here)⟩
  refine ⟨?_, ?_, ?_, ?_⟩
  · intro x within t at_
    obtain ⟨_, old, different⟩ := others x within t at_
    rw [write_other _ _ _ _ different]
    exact index.refers x within t old
  · intro t before within live
    by_cases same : t = s
    · simp [same] at live
    · rw [write_other _ _ _ _ same] at live
      obtain ⟨x, inX, old⟩ := index.indexed t before within live
      refine ⟨x, inX, ?_⟩
      have different : x ≠ b := by
        intro clash
        rw [clash, here] at old
        exact same (Bucket.slot.inj old).symm
      rw [write_other _ _ _ _ different]
      exact old
  · refine well_formed_congr _ (probe_covering sizes) (fun x within => ?_)
      (clear_well_formed index.formed b)
    by_cases same : x = b
    · simp [same, cellOf]
    · cases old : c.buckets x with
      | empty => simp [write_other _ _ _ _ same, old, cellOf]
      | tombstone => simp [write_other _ _ _ _ same, old, cellOf]
      | slot t =>
        have different := (others x within t (by rw [write_other _ _ _ _ same]; exact old)).2.2
        simp [write_other _ _ _ _ same, old, cellOf, write_other _ _ _ _ different]
  · have counted := total_write c.bucketCount.toNat c.buckets tombstoneOf b .tombstone bound
    have few := total_le_count c.bucketCount.toNat (write c.buckets b .tombstone) tombstoneOf tombstone_le
    obtain ⟨k, small, power⟩ := sizes.power
    have size : 2 ^ k ≤ 2 ^ 31 := Nat.pow_le_pow_right (by omega) small
    have marks := index.marks
    simp only [here, tombstoneOf] at counted
    rw [u32_add _ _ (by simp only [UInt32.toNat_one]; omega), UInt32.toNat_one]
    omega

end SamosaChat.Ecache
