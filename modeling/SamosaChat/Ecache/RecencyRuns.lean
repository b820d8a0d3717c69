import SamosaChat.Ecache.Recency

set_option autoImplicit false

namespace SamosaChat.Ecache

open Slots Scan Iterate

def Ticks (c : ExpertCache) (request : ApiCall) (key : EcacheKey) : Prop :=
  match request with
  | .get k requirement out =>
    k = key ∧ out = true ∧ (requirement = .requireBase ∨ requirement = .requireFull) ∧
      ∃ bucket slot, hashFind c key = .found bucket slot
  | .insertBase k request =>
    k = key ∧ ∃ charge, BaseAsks c key request charge ∧ (canMakeRoom c charge true none).2 = true
  | _ => False

def OrderKept (c : ExpertCache) (request : ApiCall) : Prop :=
  ∀ key, Ticks c request key → MergesInOrder c key

variable {c d : ExpertCache}

theorem next_clock_entry (config : d.config = c.config) (clock : d.clock = c.clock) (i : Nat)
    (same : d.entries i = c.entries i) : (nextClock d).1.entries i = (nextClock c).1.entries i := by
  unfold nextClock
  rw [clock]
  split
  · dsimp only
    rw [ExpertCache.slotCount, config, same, ExpertCache.slotCount]
  · exact same

theorem next_clock_stamp (clock : d.clock = c.clock) : (nextClock d).2 = (nextClock c).2 := by
  have same : Saturated d ↔ Saturated c := by rw [Saturated, Saturated, clock]
  apply UInt64.toNat_inj.mp
  rw [next_clock_value, next_clock_value, clock]
  simp only [same]

theorem next_clock_config (c : ExpertCache) : (nextClock c).1.config = c.config ∧ (nextClock c).1.clock = (nextClock c).2 := by
  unfold nextClock
  split <;> exact ⟨rfl, rfl⟩

-- touch_entry ticks the clock and restamps its entry alone.
structure TouchedAt (c d : ExpertCache) (slot : Nat) : Prop where
  config : d.config = c.config
  clock : d.clock = (nextClock c).2
  key : (d.entries slot).key = (c.entries slot).key
  access : (d.entries slot).lastAccess = (nextClock c).2
  queue : c.config.policy = .twoQ → (d.entries slot).queue = .hot
  others : ∀ i ≠ slot, d.entries i = (nextClock c).1.entries i

theorem touch_entry_at (c : ExpertCache) (slot : Nat) : TouchedAt c (touchEntry c slot) slot := by
  unfold touchEntry
  dsimp only
  generalize usedEq : ({ c with
    stats := { c.stats with
      baseHits := satInc c.stats.baseHits
      baseBytesAvoided := satAdd c.stats.baseBytesAvoided (c.entries slot).baseRead }
    entries := write c.entries slot { c.entries slot with basePrefetchedUnused := false } } : ExpertCache) = used
  have config : used.config = c.config := by rw [← usedEq]
  have clock : used.clock = c.clock := by rw [← usedEq]
  have key : (used.entries slot).key = (c.entries slot).key := by
    rw [← usedEq]
    simp only [write_same]
  have others : ∀ i ≠ slot, used.entries i = c.entries i := by
    intro i other
    rw [← usedEq]
    exact write_other _ _ _ _ other
  have stamp := next_clock_stamp clock
  obtain ⟨ticked, advanced⟩ := next_clock_config used
  refine ⟨ticked.trans config, advanced.trans stamp, ?_, ?_, ?_, ?_⟩
  · simp only [write_same]
    exact (next_clock_occupied used slot).2.trans key
  · simp only [write_same]
    exact stamp
  · intro policy
    simp only [write_same]
    rw [ticked, config, if_pos policy]
  · intro i other
    exact (write_other _ _ _ _ other).trans (next_clock_entry config clock i (others i other))

theorem touched_used {slot : Nat} (inv : Inv c) (touched : TouchedAt c d slot)
    (inside : slot < c.slotCount) (occupied : (c.entries slot).occupied) : UsedAt c d slot (c.entries slot).key where
  config := touched.config
  clock := touched.clock
  inside := inside
  named := touched.key
  others i _ other := by rw [touched.others i other]
  alone i within other live same := other (inv.entries.keys i within slot inside live occupied same)
  stamp := by
    unfold stampOf standing
    dsimp only
    split
    · rename_i cold
      rw [touched.queue cold.1] at cold
      exact nomatch cold.2
    · rw [touched.access]

theorem touched_now {slot : Nat} (touched : TouchedAt c d slot) (history : History) (time : Nat) (key : EcacheKey) :
    UsedNow c.config.policy history { history with got := Function.update history.got key (some time) } time key
      (queueOf c.config.policy (standing (d.entries slot))) where
  others other apart := by
    unfold turn
    dsimp only
    rw [Function.update_of_ne apart]
  now := by
    unfold turn queueOf standing
    dsimp only
    rw [Function.update_self]
    by_cases policy : c.config.policy = .twoQ
    · simp [policy, touched.queue policy]
    · simp [policy]

theorem get_outcome (c : ExpertCache) (key : EcacheKey) (requirement : EcacheRequirement) (out : Bool) :
    (¬ ((ecacheGet c key requirement out).2.result = some .hit ∨
        (ecacheGet c key requirement out).2.result = some .residualMiss) ∧
      StandsStill c (ecacheGet c key requirement out).1) ∨ ((ecacheGet c key requirement out).2.result = some .hit ∨
        (ecacheGet c key requirement out).2.result = some .residualMiss) ∧
      out = true ∧ (requirement = .requireBase ∨ requirement = .requireFull) ∧
      ∃ bucket slot, hashFind c key = .found bucket slot ∧ TouchedAt c (ecacheGet c key requirement out).1 slot := by
  unfold ecacheGet
  split
  · exact .inl ⟨by simp, stands_still_refl c⟩
  rename_i given
  split
  · exact .inl ⟨by simp, stands_still_refl c⟩
  split
  · exact .inl ⟨by simp, stands_still_refl c⟩
  rename_i known
  have shown : out = true := by
    simp only [Bool.or_eq_true, Bool.not_eq_true', not_or, Bool.not_eq_false] at given
    exact given.2
  have asked : requirement = .requireBase ∨ requirement = .requireFull := by
    by_cases base : requirement = .requireBase
    · exact .inl base
    · exact .inr (by_contra fun full => known ⟨base, full⟩)
  cases found : hashFind c key with
  | missing bucket => exact .inl ⟨by simp, rfl, rfl, fun _ _ => rfl⟩
  | found bucket slot =>
    have touched := touch_entry_at c slot
    dsimp only
    split
    · split
      · exact .inr ⟨.inr rfl, shown, asked, bucket, slot, rfl, touched.config, touched.clock, touched.key,
          touched.access, touched.queue, touched.others⟩
      · refine .inr ⟨.inl rfl, shown, asked, bucket, slot, rfl, touched.config, touched.clock, ?_, ?_, ?_, ?_⟩
        · simp only [write_same]
          exact touched.key
        · simp only [write_same]
          exact touched.access
        · simp only [write_same]
          exact touched.queue
        · intro i other
          exact (write_other _ _ _ _ other).trans (touched.others i other)
    · exact .inr ⟨.inl rfl, shown, asked, bucket, slot, rfl, touched⟩

theorem admit_base_used {slot bucket : Nat} {key : EcacheKey} {request : Admission} {charge : UInt64} (inside : slot < c.slotCount)
    (absent : ∀ i < c.slotCount, (c.entries i).occupied → (c.entries i).key ≠ key) :
    UsedAt c (admitBase c slot bucket key request charge) slot key where
  config := (next_clock_config c).1
  clock := (next_clock_config c).2
  inside := inside
  named := by simp [admitBase, newEntry]
  others i _ other := by
    unfold admitBase
    dsimp only
    rw [write_other _ _ _ _ other]
  alone i within _ live := absent i within live
  stamp := by simp [admitBase, newEntry, standing, stampOf]

theorem admit_base_now (c : ExpertCache) (slot bucket : Nat) (key : EcacheKey) (request : Admission) (charge : UInt64)
    (history : History) (time : Nat) :
    UsedNow c.config.policy history
      { inserted := Function.update history.inserted key time, got := Function.update history.got key none } time key
      (queueOf c.config.policy (standing ((admitBase c slot bucket key request charge).entries slot))) where
  others other apart := by
    unfold turn
    dsimp only
    rw [Function.update_of_ne apart, Function.update_of_ne apart]
  now := by simp [turn, admitBase, newEntry, standing, queueOf]

theorem repins_stand_still {c d : ExpertCache} (repins : Repins c d) : StandsStill c d := by
  obtain rfl | ⟨slot, count, rfl⟩ := repins
  · exact stands_still_refl _
  · exact rewritten_stands_still c slot _ rfl

theorem promote_stands_still (inv : Inv c) (key : EcacheKey) (request : Admission) :
    StandsStill c (ecachePromote c key request).1 := by
  rcases promote_outcome inv key request with ⟨_, prepared⟩ | ⟨b, d, slot, charge, prepared, run, _, _, eq⟩
  · exact prepared_stands_still prepared
  · have live := retouches_inv inv prepared.touched
    have still := stands_still_trans (prepared_stands_still prepared) (releases_stand_still live run)
    rw [eq]
    exact stands_still_trans still ⟨rfl, rfl, (rewritten_stands_still d slot
      (withResidual (d.entries slot) request charge) rfl).entries⟩

theorem remove_stands_still (inv : Inv c) (key : EcacheKey) : StandsStill c (ecacheRemove c key).1 := by
  rcases remove_cases inv key with ⟨_, same⟩ | ⟨run, _⟩
  · rw [same]
    exact stands_still_refl c
  · exact releases_stand_still inv run

theorem count_pressure_prepared (c : ExpertCache) (pressure : EcachePressure) : Prepared c (countPressure c pressure) := by
  refine ⟨count_pressure_retouches c pressure, ?_, ?_⟩
  · unfold countPressure
    split <;> rfl
  · unfold countPressure
    split <;> rfl

theorem pressure_rounds (inv : Inv c) (pressure : EcachePressure) (target : UInt64) (reason : EcacheReleaseReason) (rounds : Nat) :
    Inv (iterate (pressureBaseStep target) rounds (pressureResiduals (countPressure c pressure) target reason)) ∧
      StandsStill c
        (iterate (pressureBaseStep target) rounds (pressureResiduals (countPressure c pressure) target reason)) := by
  have prepared := count_pressure_prepared c pressure
  have live := retouches_inv inv prepared.touched
  obtain ⟨residuals, stopped⟩ := pressure_residuals_spec live target reason
  generalize pressureResiduals (countPressure c pressure) target reason = mid at residuals stopped
  have midInv := releases_inv live residuals
  have cleared : mid.stats.payloadBytes > target → chooseResidual mid = none := by
    intro above
    simpa [pressureResidualStep, above] using stopped
  have initial : BaseRound target mid mid := ⟨⟨midInv, cleared⟩, .refl⟩
  have round := iterate_invariant (n := rounds) base_round_step initial
  exact ⟨round.1.1, stands_still_trans (prepared_stands_still prepared)
    (stands_still_trans (releases_stand_still live residuals) (releases_stand_still midInv round.2))⟩

theorem pressure_stands_still (inv : Inv c) (pressure : EcachePressure) (target : UInt64) (out : Bool) :
    StandsStill c (ecacheApplyPressure c pressure target out).1 := by
  unfold ecacheApplyPressure
  split
  · exact stands_still_refl c
  split
  · exact stands_still_refl c
  split
  · exact stands_still_refl c
  split
  · exact stands_still_refl c
  dsimp only
  generalize (if pressure = .warn then EcacheReleaseReason.pressureWarn else .pressureCritical) = reason
  by_cases critical : pressure = .critical
  · rw [if_pos critical]
    have still := (pressure_rounds inv pressure target reason
      (2 * (pressureResiduals (countPressure c pressure) target reason).slotCount)).2
    exact ⟨still.config, still.clock, still.entries⟩
  · rw [if_neg critical]
    have still := (pressure_rounds inv pressure target reason 0).2
    exact ⟨still.config, still.clock, still.entries⟩

theorem in_order_call {history : History} {time : Nat} (inv : Inv c)
    (order : InOrder c history time) (request : ApiCall) (kept : OrderKept c request) :
    InOrder (call c request).1 (note time history request (call c request).2) (time + 1) := by
  cases request with
  | get key requirement out =>
    rcases get_outcome c key requirement out with ⟨missed, still⟩ | ⟨hit, shown, asked, bucket, slot, found, touched⟩
    · have unnoted : note time history (.get key requirement out) (ecacheGet c key requirement out).2 = history :=
        if_neg missed
      change InOrder (ecacheGet c key requirement out).1 _ _
      rw [call, unnoted]
      exact in_order_still order still (Nat.le_succ time)
    · obtain ⟨inside, occupied, named⟩ := hash_find_found c key bucket slot inv.sizes inv.index found
      have merges := kept key ⟨rfl, shown, asked, bucket, slot, found⟩
      have used := touched_used inv touched inside occupied
      rw [named] at used
      have noted : note time history (.get key requirement out) (ecacheGet c key requirement out).2 =
          { history with got := Function.update history.got key (some time) } := if_pos hit
      change InOrder (ecacheGet c key requirement out).1 _ _
      rw [call, noted]
      exact in_order_used order merges used (touched_now touched history time key)
  | peek key out =>
    simp only [call, note, peek_same]
    exact in_order_still order (stands_still_refl c) (Nat.le_succ time)
  | pin key => exact in_order_still order (repins_stand_still (pin_repins c key)) (Nat.le_succ time)
  | unpin key => exact in_order_still order (repins_stand_still (unpin_repins c key)) (Nat.le_succ time)
  | insertBase key request =>
    rcases insert_outcome inv key request with
      ⟨failed, _, prepared⟩ | ⟨b, d, slot, bucket, charge, prepared, asks, granted, run, ok, absent, eq⟩
    · have unnoted : note time history (.insertBase key request) (ecacheInsertBase c key request).2 = history :=
        if_neg failed
      change InOrder (ecacheInsertBase c key request).1 _ _
      rw [call, unnoted]
      exact in_order_still order (prepared_stands_still prepared) (Nat.le_succ time)
    · have live := retouches_inv inv prepared.touched
      have still := stands_still_trans (prepared_stands_still prepared) (releases_stand_still live run)
      have merges := still_merges_in_order (kept key ⟨rfl, charge, asks, granted⟩) still
      have alone := releases_absent live run (retouches_absent prepared.touched absent)
      simp only [call, note, eq, if_true]
      exact in_order_used (in_order_still order still (Nat.le_refl time)) merges (admit_base_used ok.inside alone)
        (admit_base_now d slot bucket key request charge history time)
  | promote key request => exact in_order_still order (promote_stands_still inv key request) (Nat.le_succ time)
  | remove key => exact in_order_still order (remove_stands_still inv key) (Nat.le_succ time)
  | applyPressure pressure target out =>
    exact in_order_still order (pressure_stands_still inv pressure target out) (Nat.le_succ time)

def OrderKeptAlong : ExpertCache → List ApiCall → Prop
  | _, [] => True
  | c, request :: rest => OrderKept c request ∧ OrderKeptAlong (call c request).1 rest

theorem trace_cache (traced : Traced) (calls : List ApiCall) : (calls.foldl record traced).cache = run traced.cache calls := by
  induction calls generalizing traced with
  | nil => rfl
  | cons request rest ih => exact ih (record traced request)

theorem in_order_trace (traced : Traced) (calls : List ApiCall) (inv : Inv traced.cache)
    (order : InOrder traced.cache traced.history traced.time) (kept : OrderKeptAlong traced.cache calls) :
    InOrder (calls.foldl record traced).cache (calls.foldl record traced).history (calls.foldl record traced).time := by
  induction calls generalizing traced with
  | nil => exact order
  | cons request rest ih =>
    exact ih (record traced request) (call_inv inv request) (in_order_call inv order request kept.1) kept.2

theorem in_order_empty (empty : ∀ i, (c.entries i).occupied = false) : InOrder c blank 0 := by
  have none : ∀ {i}, ¬ (c.entries i).occupied = true := fun {i} live => by
    rw [empty i] at live
    cases live
  exact ⟨fun _ _ live => absurd live none, fun _ _ live => absurd live none, fun _ _ live => absurd live none,
    fun _ _ _ _ live => absurd live none⟩

theorem room_round_still (inv : Inv c) (incoming : UInt64) (needEntrySlot : Bool) (protectedSlot : Option Nat) (rounds : Nat) :
    Inv (iterate (makeRoomStep incoming needEntrySlot protectedSlot) rounds
        (canMakeRoom c incoming needEntrySlot protectedSlot).1) ∧
      StandsStill c (iterate (makeRoomStep incoming needEntrySlot protectedSlot) rounds
        (canMakeRoom c incoming needEntrySlot protectedSlot).1) := by
  obtain ⟨layers, proof, planned, _⟩ := can_make_room_spec inv incoming needEntrySlot protectedSlot
  have prepared := prepared_planless c layers planned
  have live := retouches_inv inv prepared.touched
  rw [proof]
  have preserved : ∀ s t, Inv s ∧ Releases (AutoAllowed protectedSlot) { c with layers := layers } s →
      makeRoomStep incoming needEntrySlot protectedSlot s = some t →
      Inv t ∧ Releases (AutoAllowed protectedSlot) { c with layers := layers } t := by
    intro s t good step
    have run := make_room_step_allowed good.1 step
    exact ⟨releases_inv good.1 run, releases_trans good.2 run⟩
  have round := iterate_invariant (n := rounds) preserved ⟨live, .refl⟩
  exact ⟨round.1, stands_still_trans (prepared_stands_still prepared) (releases_stand_still live round.2)⟩

-- The two loops that evict bases, make_room and the critical pressure loop, in every round, after a run.
structure VictimsFirst (c : ExpertCache) (calls : List ApiCall) : Prop where
  room : ∀ incoming needEntrySlot protectedSlot rounds,
    VictimFirst (trace c calls).history
      (iterate (makeRoomStep incoming needEntrySlot protectedSlot) rounds
        (canMakeRoom (run c calls) incoming needEntrySlot protectedSlot).1) protectedSlot
  pressure : ∀ pressure target reason rounds,
    VictimFirst (trace c calls).history
      (iterate (pressureBaseStep target) rounds
        (pressureResiduals (countPressure (run c calls) pressure) target reason)) none

section Merge

def threeConfig : EcacheConfig := { smallConfig with maxEntries := 3 }

def threeArgs : InitArgs := { smallArgs with config := threeConfig }

def threeCache : ExpertCache :=
  { smallCache with
    config := threeConfig
    metadataBytes := 704
    bucketCount := 8
    stats := { budgetBytes := 64, metadataBytes := 704 } }

theorem three_init : ecacheInit lp64 threeArgs = .ok threeCache := by rfl

def keyOf (expert : UInt32) : EcacheKey := ⟨0, expert⟩

-- Key 1 in slot 0 is got after key 2 went into slot 1: stamps 3 and 2.
def crowd : List ApiCall :=
  [.insertBase (keyOf 1) (demandOf 1), .insertBase (keyOf 2) (demandOf 2), .get (keyOf 1) .requireBase true,
    .insertBase (keyOf 3) (demandOf 3)]

def crowded : ExpertCache := run threeCache crowd

def again : ApiCall := .get (keyOf 3) .requireBase true

theorem crowded_inv : Inv crowded := reachable_inv three_init crowd

theorem crowded_third : ∃ bucket, hashFind crowded (keyOf 3) = .found bucket 2 := by
  have occupied : (crowded.entries 2).occupied ∧ (crowded.entries 2).key = keyOf 3 ∧ 2 < crowded.slotCount := by
    decide
  obtain ⟨bucket, _, _, found⟩ :=
    hash_find_occupied crowded 2 crowded_inv.sizes crowded_inv.index occupied.2.2 occupied.1
  rw [occupied.2.1] at found
  exact ⟨bucket, found⟩

structure Waits (c : ExpertCache) (rounds : Nat) : Prop where
  touched : Retouches crowded c
  clock : c.clock.toNat = 4 + rounds
  others : ∀ i < 2, c.entries i = crowded.entries i

theorem again_touches (touched : Retouches crowded c) : TouchedAt c (call c again).1 2 := by
  obtain ⟨bucket, third⟩ := crowded_third
  have found := (retouches_find touched (keyOf 3)).trans third
  have valid : cacheValid c = true := by simp [cacheValid, (retouches_inv crowded_inv touched).magic]
  have layers : c.config = threeConfig := by
    obtain ⟨_, _, _, _, rfl, _⟩ := touched
    rfl
  rcases get_outcome c (keyOf 3) .requireBase true with ⟨missed, _⟩ | ⟨_, _, _, b, slot, here, at_⟩
  · refine absurd ?_ missed
    unfold ecacheGet
    rw [if_neg (by simp [valid]), if_neg (by rw [layers]; decide), if_neg (by decide), found]
    exact .inl rfl
  · rw [found] at here
    cases here
    exact at_

theorem unsaturated_entry (below : ¬ Saturated c) (i : Nat) : (nextClock c).1.entries i = c.entries i := by
  unfold nextClock
  rw [if_neg (show c.clock ≠ UInt64.ofNat (2 ^ 64 - 1) from below)]

theorem again_waits {rounds : Nat} (waits : Waits c rounds) (room : 4 + rounds < 2 ^ 64 - 1) :
    Waits (call c again).1 (rounds + 1) := by
  have touched := again_touches waits.touched
  have below : ¬ Saturated c := by
    intro saturated
    have value := congrArg UInt64.toNat saturated
    rw [waits.clock, show (UInt64.ofNat (2 ^ 64 - 1)).toNat = 2 ^ 64 - 1 from rfl] at value
    omega
  refine ⟨retouches_trans waits.touched (get_retouches c (keyOf 3) .requireBase true), ?_, ?_⟩
  · rw [touched.clock, next_clock_value, if_neg below, waits.clock]
    omega
  · intro i two
    rw [touched.others i (by omega), unsaturated_entry below, waits.others i two]

theorem crowd_waits (rounds : Nat) (room : 4 + rounds ≤ 2 ^ 64 - 1) : Waits (run crowded (List.replicate rounds again)) rounds := by
  induction rounds with
  | zero =>
    rw [List.replicate_zero, run, List.foldl_nil]
    exact ⟨retouches_refl crowded, by decide, fun _ _ => rfl⟩
  | succ rounds ih =>
    have before := ih (by omega)
    rw [List.replicate_succ', run, List.foldl_append]
    exact again_waits before (by omega)

theorem again_unnoted (traced : Traced) (rounds : Nat) (key : EcacheKey) (other : key ≠ keyOf 3) :
    ((List.replicate rounds again).foldl record traced).history.got key = traced.history.got key ∧
      ((List.replicate rounds again).foldl record traced).history.inserted key = traced.history.inserted key := by
  induction rounds generalizing traced with
  | zero => exact ⟨rfl, rfl⟩
  | succ rounds ih =>
    rw [List.replicate_succ, List.foldl_cons]
    obtain ⟨got, inserted⟩ := ih (record traced again)
    rw [got, inserted]
    unfold record note again
    dsimp only
    by_cases hit : (call traced.cache (.get (keyOf 3) .requireBase true)).2.result = some .hit ∨
        (call traced.cache (.get (keyOf 3) .requireBase true)).2.result = some .residualMiss
    · rw [if_pos hit]
      exact ⟨Function.update_of_ne other _ _, rfl⟩
    · rw [if_neg hit]
      exact ⟨rfl, rfl⟩

def merged (rounds : Nat) : List ApiCall := crowd ++ List.replicate (rounds + 1) again

structure Halved (c : ExpertCache) : Prop where
  touched : Retouches crowded c
  halved : ∀ i < 2, c.entries i = halveClock (crowded.entries i)
  third : (c.entries 2).lastAccess = UInt64.ofNat (2 ^ 63 + 1)

theorem merged_halved (rounds : Nat) (full : 4 + rounds = 2 ^ 64 - 1) : Halved (run threeCache (merged rounds)) := by
  have waits := crowd_waits rounds full.le
  have reached : run threeCache (merged rounds) = (call (run crowded (List.replicate rounds again)) again).1 := by
    rw [merged, run, List.foldl_append, List.replicate_succ', List.foldl_append]
    rfl
  rw [reached]
  generalize run crowded (List.replicate rounds again) = c at waits
  have touched := again_touches waits.touched
  have saturated : Saturated c := by
    apply UInt64.toNat_inj.mp
    rw [waits.clock, full]
    rfl
  have slots : c.slotCount = 3 := by
    obtain ⟨_, _, _, _, rfl, _⟩ := waits.touched
    rfl
  have halved : ∀ i < 3, (nextClock c).1.entries i = halveClock (c.entries i) := by
    intro i inside
    unfold nextClock
    rw [if_pos (show c.clock = UInt64.ofNat (2 ^ 64 - 1) from saturated)]
    dsimp only
    rw [slots, if_pos inside]
  refine ⟨retouches_trans waits.touched (get_retouches c (keyOf 3) .requireBase true), ?_, ?_⟩
  · intro i two
    rw [touched.others i (by omega), halved i (by omega), waits.others i two]
  · rw [touched.access]
    apply UInt64.toNat_inj.mp
    rw [next_clock_value, if_pos saturated]
    rfl

theorem merged_history (rounds : Nat) : turn .lru (trace threeCache (merged rounds)).history (keyOf 1) = (0, 2) ∧
      turn .lru (trace threeCache (merged rounds)).history (keyOf 2) = (0, 1) := by
  obtain ⟨got1, _⟩ := again_unnoted (trace threeCache crowd) (rounds + 1) (keyOf 1) (by decide)
  obtain ⟨got2, inserted2⟩ := again_unnoted (trace threeCache crowd) (rounds + 1) (keyOf 2) (by decide)
  have first : (trace threeCache crowd).history.got (keyOf 1) = some 2 := by decide
  have second : (trace threeCache crowd).history.got (keyOf 2) = none ∧
      (trace threeCache crowd).history.inserted (keyOf 2) = 1 := by decide
  unfold turn
  rw [merged, trace, List.foldl_append, ← trace, got1, got2, inserted2, first, second.1, second.2]
  exact ⟨rfl, rfl⟩

theorem halved_allowed (halved : Halved c) (i : Nat) (two : i < 2) : baseFloorAllows c i false = true := by
  have entry : ∀ i < 2, (crowded.entries i).occupied ∧ (crowded.entries i).plannedBaseEvict = false ∧
      (crowded.entries i).pinCount = 0 ∧ (crowded.entries i).key.layer = 0 ∧ (crowded.entries i).baseCharge = 16 := by
    decide
  have layer : (planless (crowded.layers 0)).baseEntries = 3 ∧ (planless (crowded.layers 0)).baseBytes = 48 ∧
      (planless (crowded.layers 0)).floor.minBaseEntries = 0 ∧ (planless (crowded.layers 0)).floor.minBaseBytes = 0 := by
    decide
  obtain ⟨occupied, unmarked, unpinned, zero, charge⟩ := entry i two
  have same := halved.halved i two
  rw [halveClock, if_pos occupied] at same
  obtain ⟨entries, clock, stats, layers, rfl, _, _, planned⟩ := halved.touched
  rw [← planned 0] at layer
  obtain ⟨count, bytes, minEntries, minBytes⟩ := layer
  dsimp only [planless] at count bytes minEntries minBytes
  unfold baseFloorAllows
  rw [same]
  simp [occupied, unmarked, unpinned, zero, charge, count, bytes, minEntries, minBytes]

theorem halved_stamps (halved : Halved c) (i : Nat) (three : i < 3) :
    2 ≤ stampOf .lru (standing (c.entries i)) ∧ stampOf .lru (standing (c.entries 0)) = 2 := by
  have first : stampOf .lru (standing (c.entries 0)) = 2 := by
    rw [halved.halved 0 (by decide)]
    decide
  refine ⟨?_, first⟩
  match i, three with
  | 0, _ => exact first.ge
  | 1, _ =>
    rw [halved.halved 1 (by decide)]
    decide
  | 2, _ =>
    unfold stampOf standing
    dsimp only
    rw [if_neg (by simp), halved.third]
    decide

theorem merged_wrong (rounds : Nat) (full : 4 + rounds = 2 ^ 64 - 1) : ¬ VictimsFirst threeCache (merged rounds) := by
  intro claim
  have victims := claim.room 16 true none 0
  have inv := reachable_inv three_init (merged rounds)
  have halved := merged_halved rounds full
  obtain ⟨first, second⟩ := merged_history rounds
  generalize run threeCache (merged rounds) = c at victims inv halved
  obtain ⟨layers, proof, planned, _⟩ := can_make_room_spec inv 16 true none
  have prepared := prepared_planless c layers planned
  have still : Halved { c with layers := layers } :=
    ⟨retouches_trans halved.touched prepared.touched, halved.halved, halved.third⟩
  have live := retouches_inv inv prepared.touched
  rw [proof, iterate] at victims
  generalize ({ c with layers := layers } : ExpertCache) = d at victims still live
  have config : d.config = threeConfig := by
    obtain ⟨_, _, _, _, rfl, _⟩ := still.touched
    rfl
  have slots : d.slotCount = 3 := by
    rw [ExpertCache.slotCount, config]
    rfl
  have policy : d.config.policy = .lru := by rw [config]; rfl
  have keys : (d.entries 0).key = keyOf 1 ∧ (d.entries 1).key = keyOf 2 := by
    rw [still.halved 0 (by decide), still.halved 1 (by decide)]
    decide
  cases chosen : chooseBase d none false with
  | none =>
    have refused := (best_of_none _ _ _).mp chosen 0 (by omega)
    simp [halved_allowed still 0 (by decide)] at refused
  | some victim =>
    obtain ⟨inside, _⟩ := choose_base_some chosen
    have bound : victim < 3 := slots ▸ inside
    have zero : victim = 0 := by
      by_contra later
      have ahead := choose_base_first live chosen 0 (by omega) (Ne.symm later) (by simp)
        (halved_allowed still 0 (by decide))
      obtain ⟨least, two⟩ := halved_stamps still victim bound
      rw [policy] at ahead
      unfold Ahead at ahead
      dsimp only at ahead
      have one : ∀ entry, queueOf .lru entry = 0 := fun entry => if_neg (by simp)
      rw [one, one, two] at ahead
      omega
    have earlier := victims victim chosen 1 (by omega) (by omega) (by simp) (halved_allowed still 1 (by decide))
    rw [zero, policy, keys.1, keys.2, Earlier, first, second] at earlier
    simp at earlier

end Merge

end SamosaChat.Ecache
