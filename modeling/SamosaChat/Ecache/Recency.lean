import SamosaChat.Ecache.RoomProof

set_option autoImplicit false

namespace SamosaChat.Ecache

open Slots Words Scan

-- What the calls so far have used, by the number of the call: nothing of the cache is read here.
-- A get counts when it finds the key; an insertion starts the key anew.
structure History where
  inserted : EcacheKey → Nat
  got : EcacheKey → Option Nat

def blank : History where
  inserted _ := 0
  got _ := none

def note (time : Nat) (history : History) (request : ApiCall) (reply : Reply) : History :=
  match request with
  | .get key _ _ =>
    if reply.result = some .hit ∨ reply.result = some .residualMiss then
      { history with got := Function.update history.got key (some time) }
    else history
  | .insertBase key _ =>
    if reply.status = .ok then
      { inserted := Function.update history.inserted key time, got := Function.update history.got key none }
    else history
  | _ => history

structure Traced where
  cache : ExpertCache
  history : History
  time : Nat

def record (traced : Traced) (request : ApiCall) : Traced :=
  let outcome := call traced.cache request
  { cache := outcome.1
    history := note traced.time traced.history request outcome.2
    time := traced.time + 1 }

def trace (c : ExpertCache) (calls : List ApiCall) : Traced :=
  calls.foldl record { cache := c, history := blank, time := 0 }

-- The queue and the call that decide when a key is due to go. Under LRU there is one queue and the
-- latest use decides; under 2Q a key is cold, and waits by its insertion, until it is got.
def turn (policy : EcachePolicy) (history : History) (key : EcacheKey) : Nat × Nat :=
  if policy = .twoQ then
    match history.got key with
    | none => (0, history.inserted key)
    | some time => (1, time)
  else (0, (history.got key).getD (history.inserted key))

def Earlier (policy : EcachePolicy) (history : History) (a b : EcacheKey) : Prop :=
  (turn policy history a).1 < (turn policy history b).1 ∨
    (turn policy history a).1 = (turn policy history b).1 ∧ (turn policy history a).2 < (turn policy history b).2

def VictimFirst (history : History) (c : ExpertCache) (protectedSlot : Option Nat) : Prop :=
  ∀ victim, chooseBase c protectedSlot false = some victim →
    ∀ i < c.slotCount, i ≠ victim → some i ≠ protectedSlot → baseFloorAllows c i false = true →
      Earlier c.config.policy history (c.entries victim).key (c.entries i).key

structure Standing where
  occupied : Bool
  key : EcacheKey
  lastAccess : UInt64
  admissionOrder : UInt64
  queue : Queue

def standing (entry : CacheEntry) : Standing where
  occupied := entry.occupied
  key := entry.key
  lastAccess := entry.lastAccess
  admissionOrder := entry.admissionOrder
  queue := entry.queue

def queueOf (policy : EcachePolicy) (entry : Standing) : Nat :=
  if policy = .twoQ ∧ entry.queue ≠ .cold then 1 else 0

def stampOf (policy : EcachePolicy) (entry : Standing) : Nat :=
  if policy = .twoQ ∧ entry.queue = .cold then entry.admissionOrder.toNat else entry.lastAccess.toNat

-- The order of candidate_precedes: queue, stamp, slot index.
def Ahead (policy : EcachePolicy) (entries : Nat → Standing) (i j : Nat) : Prop :=
  queueOf policy (entries i) < queueOf policy (entries j) ∨
    queueOf policy (entries i) = queueOf policy (entries j) ∧
      (stampOf policy (entries i) < stampOf policy (entries j) ∨
        stampOf policy (entries i) = stampOf policy (entries j) ∧ i < j)

theorem precedes_by_stamp (a b : UInt64) (i j : Nat) :
    (if a ≠ b then decide (a < b) else decide (i < j)) = true ↔ a.toNat < b.toNat ∨ a.toNat = b.toNat ∧ i < j := by
  by_cases same : a = b
  · simp [same]
  · have apart : a.toNat ≠ b.toNat := fun equal => same (UInt64.toNat_inj.mp equal)
    simp [same, apart, UInt64.lt_iff_toNat_lt]

theorem candidate_precedes_iff (c : ExpertCache) (i j : Nat) (queueI : (c.entries i).queue = .cold ∨ (c.entries i).queue = .hot)
    (queueJ : (c.entries j).queue = .cold ∨ (c.entries j).queue = .hot) :
    candidatePrecedes c i j = true ↔ Ahead c.config.policy (fun i => standing (c.entries i)) i j := by
  unfold candidatePrecedes Ahead queueOf stampOf standing
  dsimp only
  by_cases policy : c.config.policy = .twoQ
  · rw [if_pos policy]
    rcases queueI with coldI | hotI <;> rcases queueJ with coldJ | hotJ
    · simpa [coldI, coldJ, policy] using precedes_by_stamp (c.entries i).admissionOrder (c.entries j).admissionOrder i j
    · simp [coldI, hotJ, policy]
    · simp [hotI, coldJ, policy]
    · simpa [hotI, hotJ, policy] using precedes_by_stamp (c.entries i).lastAccess (c.entries j).lastAccess i j
  · rw [if_neg policy]
    simpa [policy] using precedes_by_stamp (c.entries i).lastAccess (c.entries j).lastAccess i j

structure InOrder (c : ExpertCache) (history : History) (time : Nat) : Prop where
  queue : ∀ i < c.slotCount, (c.entries i).occupied →
    queueOf c.config.policy (standing (c.entries i)) = (turn c.config.policy history (c.entries i).key).1
  past : ∀ i < c.slotCount, (c.entries i).occupied → (turn c.config.policy history (c.entries i).key).2 < time
  stamped : ∀ i < c.slotCount, (c.entries i).occupied →
    stampOf c.config.policy (standing (c.entries i)) ≤ c.clock.toNat
  order : ∀ i < c.slotCount, ∀ j < c.slotCount, (c.entries i).occupied → (c.entries j).occupied → i ≠ j →
    (Ahead c.config.policy (fun i => standing (c.entries i)) i j ↔
      Earlier c.config.policy history (c.entries i).key (c.entries j).key)

variable {c : ExpertCache}

theorem choose_base_first (inv : Inv c) {protectedSlot : Option Nat} {victim : Nat}
    (chosen : chooseBase c protectedSlot false = some victim) (i : Nat) (inside : i < c.slotCount) (other : i ≠ victim)
    (spared : some i ≠ protectedSlot) (allows : baseFloorAllows c i false = true) :
    Ahead c.config.policy (fun i => standing (c.entries i)) victim i := by
  have queued : ∀ i < c.slotCount, baseFloorAllows c i false = true →
      (c.entries i).queue = .cold ∨ (c.entries i).queue = .hot :=
    fun i bound floors => (inv.entries.valid i bound (floor_allows_live floors).1).queue
  have live : ∀ i < c.slotCount, (!(some i == protectedSlot) && baseFloorAllows c i false) = true →
      (c.entries i).queue = .cold ∨ (c.entries i).queue = .hot :=
    fun i bound eligible => queued i bound (Bool.and_eq_true_iff.mp eligible).2
  have first := best_of_least c.slotCount _ (candidatePrecedes c)
    (by
      intro i boundI j boundJ eligibleI eligibleJ apart behind
      have queueI := live i boundI eligibleI
      have queueJ := live j boundJ eligibleJ
      rw [candidate_precedes_iff c j i queueJ queueI]
      have behind := mt (candidate_precedes_iff c i j queueI queueJ).mpr (by simp [behind])
      unfold Ahead at behind ⊢
      omega)
    (by
      intro i boundI j boundJ k boundK eligibleI eligibleJ eligibleK first second
      have queueI := live i boundI eligibleI
      have queueJ := live j boundJ eligibleJ
      have queueK := live k boundK eligibleK
      rw [candidate_precedes_iff c i j queueI queueJ] at first
      rw [candidate_precedes_iff c j k queueJ queueK] at second
      rw [candidate_precedes_iff c i k queueI queueK]
      unfold Ahead at first second ⊢
      omega)
    victim chosen i inside (by simp [spared, allows]) other
  obtain ⟨bound, _, floors⟩ := choose_base_some chosen
  exact (candidate_precedes_iff c victim i (queued victim bound floors) (queued i inside allows)).mp first

variable {history : History} {time : Nat}

theorem in_order_victim (inv : Inv c)
    (order : InOrder c history time) (protectedSlot : Option Nat) : VictimFirst history c protectedSlot := by
  intro victim chosen i inside other spared allows
  have first := choose_base_first inv chosen i inside other spared allows
  obtain ⟨bound, _, floors⟩ := choose_base_some chosen
  exact (order.order victim bound i inside (floor_allows_live floors).1 (floor_allows_live allows).1
    (Ne.symm other)).mp first

structure StandsStill (c d : ExpertCache) : Prop where
  config : d.config = c.config
  clock : d.clock = c.clock
  entries : ∀ i, (d.entries i).occupied → standing (d.entries i) = standing (c.entries i)

theorem stands_still_refl (c : ExpertCache) : StandsStill c c := ⟨rfl, rfl, fun _ _ => rfl⟩

variable {d : ExpertCache}

theorem stands_still_occupied (still : StandsStill c d) (i : Nat) (occupied : (d.entries i).occupied) : (c.entries i).occupied := by
  have same := congrArg Standing.occupied (still.entries i occupied)
  exact same.symm.trans occupied

theorem stands_still_key (still : StandsStill c d) (i : Nat) (occupied : (d.entries i).occupied) :
    (d.entries i).key = (c.entries i).key :=
  congrArg Standing.key (still.entries i occupied)

theorem stands_still_trans {e : ExpertCache} (first : StandsStill c d) (second : StandsStill d e) : StandsStill c e where
  config := second.config.trans first.config
  clock := second.clock.trans first.clock
  entries i occupied := (second.entries i occupied).trans (first.entries i (stands_still_occupied second i occupied))

theorem rewritten_stands_still (c : ExpertCache) (slot : Nat) (entry : CacheEntry)
    (same : standing entry = standing (c.entries slot)) : StandsStill c { c with entries := write c.entries slot entry } := by
  refine ⟨rfl, rfl, fun i _ => ?_⟩
  by_cases here : i = slot
  · rw [here]
    simp only [write_same]
    exact same
  · simp only [write_other _ _ _ _ here]

theorem prepared_stands_still {b : ExpertCache} (prepared : Prepared c b) : StandsStill c b where
  config := by
    obtain ⟨entries, clock, stats, layers, rfl, _⟩ := prepared.touched
    rfl
  clock := prepared.clock
  entries i _ := by rw [prepared.entries]

theorem shrunk_standing {old new : CacheEntry} (shrunk : Shrunk old new) (occupied : new.occupied) :
    standing new = standing old := by
  cases shrunk with
  | same => rfl
  | demoted _ _ => rfl
  | evicted _ => cases occupied

theorem releases_stand_still {Allowed : ExpertCache → Nat → EcachePlane → Prop} (inv : Inv c)
    (run : Releases Allowed c d) : StandsStill c d where
  config := (releases_config inv run).1
  clock := (releases_config inv run).2.1
  entries i occupied := shrunk_standing (releases_shrunk inv run i) occupied

theorem in_order_still {later : Nat} (order : InOrder c history time)
    (still : StandsStill c d) (after : time ≤ later) : InOrder d history later := by
  have slots : d.slotCount = c.slotCount := by rw [ExpertCache.slotCount, still.config, ExpertCache.slotCount]
  refine ⟨?_, ?_, ?_, ?_⟩
  · intro i inside occupied
    rw [still.entries i occupied, still.config, stands_still_key still i occupied]
    exact order.queue i (slots ▸ inside) (stands_still_occupied still i occupied)
  · intro i inside occupied
    rw [still.config, stands_still_key still i occupied]
    exact (order.past i (slots ▸ inside) (stands_still_occupied still i occupied)).trans_le after
  · intro i inside occupied
    rw [still.entries i occupied, still.config, still.clock]
    exact order.stamped i (slots ▸ inside) (stands_still_occupied still i occupied)
  · intro i insideI j insideJ occupiedI occupiedJ apart
    have was := order.order i (slots ▸ insideI) j (slots ▸ insideJ) (stands_still_occupied still i occupiedI)
      (stands_still_occupied still j occupiedJ) apart
    rw [still.config, stands_still_key still i occupiedI, stands_still_key still j occupiedJ, ← was]
    simp only [Ahead, still.entries i occupiedI, still.entries j occupiedJ]

-- One tick of the clock, with the halving of every stamp where it saturates.

def Saturated (c : ExpertCache) : Prop := c.clock = UInt64.ofNat (2 ^ 64 - 1)

instance (c : ExpertCache) : Decidable (Saturated c) := inferInstanceAs (Decidable (_ = _))

def halved (entry : Standing) : Standing :=
  { entry with
    lastAccess := (entry.lastAccess >>> 1) + 1
    admissionOrder := (entry.admissionOrder >>> 1) + 1 }

theorem halved_value (value : UInt64) : ((value >>> 1) + 1).toNat = value.toNat / 2 + 1 := by
  have bound := value.toNat_lt
  have half : value.toNat >>> (1 % 64) = value.toNat / 2 := Nat.shiftRight_eq_div_pow _ 1
  rw [UInt64.toNat_add, UInt64.toNat_shiftRight, UInt64.toNat_one, half]
  omega

theorem halved_queue (policy : EcachePolicy) (entry : Standing) : queueOf policy (halved entry) = queueOf policy entry := rfl

theorem halved_stamp (policy : EcachePolicy) (entry : Standing) : stampOf policy (halved entry) = stampOf policy entry / 2 + 1 := by
  unfold stampOf halved
  dsimp only
  split
  · exact halved_value _
  · exact halved_value _

theorem standing_halved (entry : CacheEntry) (occupied : entry.occupied) :
    standing (halveClock entry) = halved (standing entry) := by
  rw [halveClock, if_pos occupied]
  rfl

theorem next_clock_standing (c : ExpertCache) (i : Nat) (inside : i < c.slotCount) (occupied : (c.entries i).occupied) :
    standing ((nextClock c).1.entries i) =
      if Saturated c then halved (standing (c.entries i)) else standing (c.entries i) := by
  unfold nextClock
  by_cases saturated : Saturated c
  · rw [if_pos (show c.clock = UInt64.ofNat (2 ^ 64 - 1) from saturated), if_pos saturated]
    dsimp only
    rw [if_pos inside, standing_halved (c.entries i) occupied]
  · rw [if_neg (show c.clock ≠ UInt64.ofNat (2 ^ 64 - 1) from saturated), if_neg saturated]

theorem next_clock_value (c : ExpertCache) : (nextClock c).2.toNat = if Saturated c then 2 ^ 63 + 1 else c.clock.toNat + 1 := by
  have bound := c.clock.toNat_lt
  unfold nextClock
  by_cases saturated : Saturated c
  · rw [if_pos (show c.clock = UInt64.ofNat (2 ^ 64 - 1) from saturated), if_pos saturated]
    dsimp only
    rw [show c.clock = UInt64.ofNat (2 ^ 64 - 1) from saturated]
    rfl
  · have below : c.clock.toNat ≠ 2 ^ 64 - 1 := fun same => saturated (UInt64.toNat_inj.mp same)
    rw [if_neg (show c.clock ≠ UInt64.ofNat (2 ^ 64 - 1) from saturated), if_neg saturated]
    exact u64_add _ _ (by rw [UInt64.toNat_one]; omega)

-- The stamps that a saturated clock would merge are those of entries whose slots are in the same order.
-- The entry of `key` gets a new stamp and does not matter.
def MergesInOrder (c : ExpertCache) (key : EcacheKey) : Prop :=
  Saturated c → ∀ i < c.slotCount, ∀ j < c.slotCount, (c.entries i).occupied → (c.entries j).occupied →
    (c.entries i).key ≠ key → (c.entries j).key ≠ key →
    queueOf c.config.policy (standing (c.entries i)) = queueOf c.config.policy (standing (c.entries j)) →
    stampOf c.config.policy (standing (c.entries i)) < stampOf c.config.policy (standing (c.entries j)) →
    stampOf c.config.policy (standing (c.entries i)) / 2 = stampOf c.config.policy (standing (c.entries j)) / 2 →
    i < j

theorem still_merges_in_order {key : EcacheKey} (merges : MergesInOrder c key) (still : StandsStill c d) : MergesInOrder d key := by
  have slots : d.slotCount = c.slotCount := by rw [ExpertCache.slotCount, still.config, ExpertCache.slotCount]
  intro saturated i insideI j insideJ occupiedI occupiedJ otherI otherJ
  rw [still.entries i occupiedI, still.entries j occupiedJ, still.config]
  rw [stands_still_key still i occupiedI] at otherI
  rw [stands_still_key still j occupiedJ] at otherJ
  have saturated : Saturated c := by rwa [Saturated, still.clock] at saturated
  exact merges saturated i (slots ▸ insideI) j (slots ▸ insideJ) (stands_still_occupied still i occupiedI)
    (stands_still_occupied still j occupiedJ) otherI otherJ

theorem ahead_ticked {key : EcacheKey} (merges : MergesInOrder c key) (i j : Nat)
    (insideI : i < c.slotCount) (insideJ : j < c.slotCount) (occupiedI : (c.entries i).occupied)
    (occupiedJ : (c.entries j).occupied) (otherI : (c.entries i).key ≠ key) (otherJ : (c.entries j).key ≠ key) :
    Ahead c.config.policy (fun i => standing ((nextClock c).1.entries i)) i j ↔
      Ahead c.config.policy (fun i => standing (c.entries i)) i j := by
  unfold Ahead
  dsimp only
  rw [next_clock_standing c i insideI occupiedI, next_clock_standing c j insideJ occupiedJ]
  by_cases saturated : Saturated c
  · have forward := merges saturated i insideI j insideJ occupiedI occupiedJ otherI otherJ
    have backward := merges saturated j insideJ i insideI occupiedJ occupiedI otherJ otherI
    rw [if_pos saturated, if_pos saturated]
    simp only [halved_queue, halved_stamp]
    omega
  · rw [if_neg saturated, if_neg saturated]

theorem ticked_queue (c : ExpertCache) (i : Nat) (inside : i < c.slotCount) (occupied : (c.entries i).occupied) :
    queueOf c.config.policy (standing ((nextClock c).1.entries i)) = queueOf c.config.policy (standing (c.entries i)) := by
  rw [next_clock_standing c i inside occupied]
  split <;> rfl

theorem ticked_stamp (order : InOrder c history time) (i : Nat) (inside : i < c.slotCount) (occupied : (c.entries i).occupied) :
    stampOf c.config.policy (standing ((nextClock c).1.entries i)) < (nextClock c).2.toNat := by
  have stamped := order.stamped i inside occupied
  have bound := c.clock.toNat_lt
  rw [next_clock_standing c i inside occupied, next_clock_value]
  by_cases saturated : Saturated c
  · rw [if_pos saturated, if_pos saturated, halved_stamp]
    omega
  · rw [if_neg saturated, if_neg saturated]
    omega

structure UsedAt (c d : ExpertCache) (slot : Nat) (key : EcacheKey) : Prop where
  config : d.config = c.config
  clock : d.clock = (nextClock c).2
  inside : slot < c.slotCount
  named : (d.entries slot).key = key
  others : ∀ i < c.slotCount, i ≠ slot → standing (d.entries i) = standing ((nextClock c).1.entries i)
  alone : ∀ i < c.slotCount, i ≠ slot → (c.entries i).occupied → (c.entries i).key ≠ key
  stamp : stampOf c.config.policy (standing (d.entries slot)) = (nextClock c).2.toNat

structure UsedNow (policy : EcachePolicy) (before after : History) (time : Nat) (key : EcacheKey) (queue : Nat) :
    Prop where
  others : ∀ other ≠ key, turn policy after other = turn policy before other
  now : turn policy after key = (queue, time)

theorem next_clock_occupied (c : ExpertCache) (i : Nat) : ((nextClock c).1.entries i).occupied = (c.entries i).occupied ∧
      ((nextClock c).1.entries i).key = (c.entries i).key := by
  obtain ⟨entries, clock, stats, layers, same, touched, _⟩ := (next_clock_spec c).1
  rw [same]
  exact ⟨(touched i).occupied, (touched i).key⟩

theorem in_order_used {after : History} {slot : Nat} {key : EcacheKey}
    (order : InOrder c history time) (merges : MergesInOrder c key) (used : UsedAt c d slot key)
    (now : UsedNow c.config.policy history after time key (queueOf c.config.policy (standing (d.entries slot)))) :
    InOrder d after (time + 1) := by
  have slots : d.slotCount = c.slotCount := by rw [ExpertCache.slotCount, used.config, ExpertCache.slotCount]
  have occupied : ∀ i < c.slotCount, i ≠ slot → (d.entries i).occupied → (c.entries i).occupied := by
    intro i inside other live
    have same := congrArg Standing.occupied (used.others i inside other)
    exact (next_clock_occupied c i).1.symm.trans (same.symm.trans live)
  have named : ∀ i < c.slotCount, i ≠ slot → (d.entries i).key = (c.entries i).key := by
    intro i inside other
    have same := congrArg Standing.key (used.others i inside other)
    exact same.trans (next_clock_occupied c i).2
  have turned : ∀ i < c.slotCount, i ≠ slot → (d.entries i).occupied →
      turn c.config.policy after (d.entries i).key = turn c.config.policy history (c.entries i).key := by
    intro i inside other live
    rw [named i inside other]
    exact now.others _ (used.alone i inside other (occupied i inside other live))
  refine ⟨?_, ?_, ?_, ?_⟩
  · intro i inside live
    rw [slots] at inside
    rw [used.config]
    by_cases here : i = slot
    · rw [here, used.named, now.now]
    · rw [turned i inside here live, used.others i inside here, ticked_queue c i inside (occupied i inside here live)]
      exact order.queue i inside (occupied i inside here live)
  · intro i inside live
    rw [slots] at inside
    rw [used.config]
    by_cases here : i = slot
    · rw [here, used.named, now.now]
      exact Nat.lt_succ_self time
    · rw [turned i inside here live]
      exact (order.past i inside (occupied i inside here live)).trans (Nat.lt_succ_self time)
  · intro i inside live
    rw [slots] at inside
    rw [used.config, used.clock]
    by_cases here : i = slot
    · rw [here, used.stamp]
    · rw [used.others i inside here]
      exact (ticked_stamp order i inside (occupied i inside here live)).le
  · intro i insideI j insideJ liveI liveJ apart
    rw [slots] at insideI insideJ
    rw [used.config]
    by_cases atI : i = slot
    · have atJ : j ≠ slot := fun here => apart (atI.trans here.symm)
      have wasJ := occupied j insideJ atJ liveJ
      have queue := order.queue j insideJ wasJ
      have past := order.past j insideJ wasJ
      have stamp := ticked_stamp order j insideJ wasJ
      unfold Ahead Earlier
      dsimp only
      rw [turned j insideJ atJ liveJ, used.others j insideJ atJ, ticked_queue c j insideJ wasJ, atI, used.named, now.now,
        used.stamp]
      dsimp only
      omega
    · have wasI := occupied i insideI atI liveI
      by_cases atJ : j = slot
      · have queue := order.queue i insideI wasI
        have past := order.past i insideI wasI
        have stamp := ticked_stamp order i insideI wasI
        unfold Ahead Earlier
        dsimp only
        rw [turned i insideI atI liveI, used.others i insideI atI, ticked_queue c i insideI wasI, atJ, used.named, now.now,
          used.stamp]
        dsimp only
        omega
      · have wasJ := occupied j insideJ atJ liveJ
        have ticked := ahead_ticked merges i j insideI insideJ wasI wasJ (used.alone i insideI atI wasI)
          (used.alone j insideJ atJ wasJ)
        have was := order.order i insideI j insideJ wasI wasJ apart
        unfold Earlier at was ⊢
        rw [turned i insideI atI liveI, turned j insideJ atJ liveJ, ← was, ← ticked]
        unfold Ahead
        dsimp only
        rw [used.others i insideI atI, used.others j insideJ atJ]

end SamosaChat.Ecache
