import SamosaChat.Ecache.Ledger

set_option autoImplicit false

namespace SamosaChat.Ecache

open Slots Words

structure PlanesKept (old new : CacheEntry) : Prop where
  occupied : new.occupied
  key : new.key = old.key
  base : new.basePayload = old.basePayload
  residual : old.hasResidual → new.hasResidual ∧ new.residualPayload = old.residualPayload

def AtFloor (layer : LayerState) : Prop :=
  layer.floor.minBaseEntries ≤ layer.baseEntries ∧ layer.floor.minBaseBytes ≤ layer.baseBytes

def BasesKept (l : Nat) (c d : ExpertCache) : Prop :=
  ∀ i < c.config.maxEntries.toNat, (c.entries i).occupied → (c.entries i).key.layer.toNat = l →
    (d.entries i).occupied ∧ (d.entries i).key = (c.entries i).key ∧
      (d.entries i).basePayload = (c.entries i).basePayload

def FloorsHonoured (c d : ExpertCache) : Prop :=
  ∀ l < c.config.layerCount.toNat,
    (AtFloor (c.layers l) → AtFloor (d.layers l)) ∧ (¬ AtFloor (c.layers l) → BasesKept l c d)

def PinsHonoured (c d : ExpertCache) : Prop :=
  ∀ i < c.config.maxEntries.toNat, (c.entries i).occupied → (c.entries i).pinCount ≠ 0 →
    PlanesKept (c.entries i) (d.entries i)

theorem planes_kept_refl {entry : CacheEntry} (occupied : entry.occupied) : PlanesKept entry entry :=
  ⟨occupied, rfl, rfl, fun residual => ⟨residual, rfl⟩⟩

theorem planes_kept_retouched {old new : CacheEntry} (touched : Retouched old new) (occupied : old.occupied) : PlanesKept old new :=
  ⟨touched.occupied.trans occupied, touched.key, touched.basePayload,
    fun residual => ⟨touched.hasResidual.trans residual, touched.residualPayload⟩⟩

def FloorAllowed (d : ExpertCache) (s : Nat) : EcachePlane → Prop
  | .residual => (d.entries s).pinCount = 0
  | .base => baseFloorAllows d s false = true

variable {charge : UInt64} {key : EcacheKey} {request : Admission} {s slot : Nat}

theorem floor_allowed_unpinned {d : ExpertCache} {plane : EcachePlane} (allowed : FloorAllowed d s plane) : Unpinned d s plane := by
  cases plane with
  | residual => exact allowed
  | base => exact (floor_allows_live allowed).2.1

theorem auto_floor_allowed {protectedSlot : Option Nat} {d : ExpertCache} {plane : EcachePlane}
    (allowed : AutoAllowed protectedSlot d s plane) : FloorAllowed d s plane := by
  cases plane with
  | residual => exact allowed
  | base => exact allowed.1

theorem floor_allows_floor {c : ExpertCache} (allows : baseFloorAllows c s false = true) :
    let layer := c.layers (c.entries s).key.layer.toNat
    AtFloor layer ∧ layer.floor.minBaseEntries ≤ layer.baseEntries - 1 ∧
      layer.floor.minBaseBytes ≤ layer.baseBytes - (c.entries s).baseCharge := by
  unfold baseFloorAllows at allows
  dsimp only at allows
  split at allows
  · cases allows
  · simp only [Bool.false_eq_true, if_false] at allows
    split at allows
    · cases allows
    · rename_i enough
      simp only [Bool.and_eq_true, decide_eq_true_eq] at allows
      simp only [Bool.or_eq_true, decide_eq_true_eq, not_or] at enough
      obtain ⟨entries, bytes⟩ := allows
      obtain ⟨some, covered⟩ := enough
      have one := (u32_ne_zero _).mp some
      have lessEntries := u32_sub (c.layers (c.entries s).key.layer.toNat).baseEntries 1
        (by rw [UInt32.toNat_one]; exact one)
      rw [UInt64.lt_iff_toNat_lt] at covered
      have lessBytes := u64_sub (c.layers (c.entries s).key.layer.toNat).baseBytes (c.entries s).baseCharge (by omega)
      refine ⟨⟨?_, ?_⟩, entries, bytes⟩
      · have bound := UInt32.le_iff_toNat_le.mp entries
        rw [UInt32.le_iff_toNat_le]
        omega
      · have bound := UInt64.le_iff_toNat_le.mp bytes
        rw [UInt64.le_iff_toNat_le]
        omega

section Runs

variable {c d : ExpertCache}

theorem releases_pins (inv : Inv c) (run : Releases FloorAllowed c d) (i : Nat)
    (pinned : (c.entries i).pinCount ≠ 0) : d.entries i = c.entries i := by
  induction run with
  | refl => rfl
  | residual s reason countDemotion before allowed inside occupied residual ih =>
    have frame := (release_residual_frame (releases_inv inv before) s inside occupied residual reason
      countDemotion).1
    have other : i ≠ s := by
      rintro rfl
      exact pinned (ih ▸ allowed)
    rw [frame.entries, write_other _ _ _ _ other, ih]
  | base s reason countEviction before allowed inside occupied bare ih =>
    have frame := (release_bare_base_frame (releases_inv inv before) s inside occupied reason countEviction).1
    have other : i ≠ s := by
      rintro rfl
      exact pinned (ih ▸ (floor_allows_live allowed).2.1)
    rw [frame.entries, write_other _ _ _ _ other, ih]

theorem at_floor_same {a b : LayerState} (floor : b.floor = a.floor) (bytes : b.baseBytes = a.baseBytes)
    (entries : b.baseEntries = a.baseEntries) : AtFloor b ↔ AtFloor a := by
  unfold AtFloor
  rw [floor, bytes, entries]

theorem releases_floor (inv : Inv c) (run : Releases FloorAllowed c d) (l : Nat) :
    (AtFloor (c.layers l) → AtFloor (d.layers l)) ∧ (¬ AtFloor (c.layers l) → ¬ AtFloor (d.layers l) ∧ BasesKept l c d) := by
  induction run with
  | refl => exact ⟨id, fun below => ⟨below, fun _ _ live _ => ⟨live, rfl, rfl⟩⟩⟩
  | @residual d s reason countDemotion before _ inside occupied residual ih =>
    obtain ⟨frame, bases, _⟩ := release_residual_frame (releases_inv inv before) s inside occupied residual
      reason countDemotion
    have same := at_floor_same (frame.floors l) (bases l).1 (bases l).2
    refine ⟨fun at_ => same.mpr (ih.1 at_), fun below => ?_⟩
    obtain ⟨still, kept⟩ := ih.2 below
    refine ⟨fun at_ => still (same.mp at_), fun i within live on => ?_⟩
    have was := kept i within live on
    rw [frame.entries]
    by_cases here : i = s
    · subst here
      rw [write_same]
      exact was
    · rwa [write_other _ _ _ _ here]
  | @base d s reason countEviction before allowed inside occupied bare ih =>
    obtain ⟨frame, others, touched, _⟩ := release_bare_base_frame (releases_inv inv before) s inside occupied
      reason countEviction
    obtain ⟨reached, entries, bytes⟩ := floor_allows_floor allowed
    by_cases on : l = (d.entries s).key.layer.toNat
    · subst on
      obtain ⟨lessBytes, lessEntries⟩ := touched _ rfl
      refine ⟨fun _ => ⟨?_, ?_⟩, fun below => absurd reached (ih.2 below).1⟩
      · rw [frame.floors, lessEntries]
        exact entries
      · rw [frame.floors, lessBytes]
        exact bytes
    · rw [others l on]
      refine ⟨ih.1, fun below => ?_⟩
      obtain ⟨still, kept⟩ := ih.2 below
      refine ⟨still, fun i within live at_ => ?_⟩
      obtain ⟨occupied', key, base⟩ := kept i within live at_
      have other : i ≠ s := by
        rintro rfl
        exact on (by rw [key, at_])
      rw [frame.entries, write_other _ _ _ _ other]
      exact ⟨occupied', key, base⟩

-- The bytes a run frees are the charges it passed to the callback, and a residual that
-- left its entry was passed to it too.
theorem releases_account {Allowed : ExpertCache → Nat → EcachePlane → Prop} (inv : Inv c) (run : Releases Allowed c d) :
    ∃ events, d.released = c.released ++ events ∧
      d.stats.payloadBytes.toNat + (events.map fun event => event.chargedBytes.toNat).sum = c.stats.payloadBytes.toNat ∧
      ∀ i, (c.entries i).occupied → (c.entries i).hasResidual →
        d.entries i = c.entries i ∨ ∃ reason, residualEvent (c.entries i) reason ∈ events := by
  induction run with
  | refl => exact ⟨[], by simp, by simp, fun _ _ _ => .inl rfl⟩
  | @residual d s reason countDemotion before _ inside occupied residual ih =>
    obtain ⟨events, logged, paid, left⟩ := ih
    have live := releases_inv inv before
    have frame := (release_residual_frame live s inside occupied residual reason countDemotion).1
    have less := u64_sub _ _ (residual_contributes live s inside occupied residual).2.1
    have covered := (residual_contributes live s inside occupied residual).2.1
    refine ⟨events ++ [residualEvent (d.entries s) reason],
      by rw [frame.released, logged, List.append_assoc], ?_, fun i was had => ?_⟩
    · rw [frame.payload, List.map_append, List.sum_append]
      simp only [residualEvent, List.map_cons, List.map_nil, List.sum_cons, List.sum_nil]
      omega
    · by_cases here : i = s
      · subst here
        have same := shrunk_residual (releases_shrunk inv before i) occupied residual
        exact .inr ⟨reason, by simp [same]⟩
      · rw [frame.entries, write_other _ _ _ _ here]
        rcases left i was had with same | ⟨old, member⟩
        · exact .inl same
        · exact .inr ⟨old, List.mem_append_left _ member⟩
  | @base d s reason countEviction before _ inside occupied bare ih =>
    obtain ⟨events, logged, paid, left⟩ := ih
    have live := releases_inv inv before
    have frame := (release_bare_base_frame live s inside occupied reason countEviction).1
    have less := u64_sub _ _ (base_contributes live s inside occupied).2.1
    have covered := (base_contributes live s inside occupied).2.1
    refine ⟨events ++ [baseEvent (d.entries s) reason], by rw [frame.released, logged, List.append_assoc], ?_, fun i was had => ?_⟩
    · rw [frame.payload, List.map_append, List.sum_append]
      simp only [baseEvent, List.map_cons, List.map_nil, List.sum_cons, List.sum_nil]
      omega
    · rcases left i was had with same | ⟨old, member⟩
      · by_cases here : i = s
        · subst here
          rw [same, had] at bare
          cases bare
        · rw [frame.entries, write_other _ _ _ _ here]
          exact .inl same
      · exact .inr ⟨old, List.mem_append_left _ member⟩

theorem releases_planes {Allowed : ExpertCache → Nat → EcachePlane → Prop} (plane : EcachePlane) (inv : Inv c)
    (run : Releases Allowed c d) (only : ∀ d s other, Allowed d s other → other = plane) :
    ∃ events, d.released = c.released ++ events ∧ ∀ event ∈ events, event.plane = plane := by
  induction run with
  | refl => exact ⟨[], by simp, fun _ none => absurd none (by simp)⟩
  | @residual d s reason countDemotion before allowed inside occupied residual ih =>
    obtain ⟨events, logged, all⟩ := ih
    have frame := (release_residual_frame (releases_inv inv before) s inside occupied residual reason
      countDemotion).1
    refine ⟨events ++ [residualEvent (d.entries s) reason],
      by rw [frame.released, logged, List.append_assoc], fun event member => ?_⟩
    rcases List.mem_append.mp member with old | new
    · exact all event old
    · rw [List.mem_singleton.mp new]
      exact only d s .residual allowed
  | @base d s reason countEviction before allowed inside occupied bare ih =>
    obtain ⟨events, logged, all⟩ := ih
    have frame := (release_bare_base_frame (releases_inv inv before) s inside occupied reason countEviction).1
    refine ⟨events ++ [baseEvent (d.entries s) reason], by rw [frame.released, logged, List.append_assoc], fun event member => ?_⟩
    rcases List.mem_append.mp member with old | new
    · exact all event old
    · rw [List.mem_singleton.mp new]
      exact only d s .base allowed

theorem bases_cleared (run : Releases BaseAllowed c d) : d = c ∨ chooseResidual c = none := by
  induction run with
  | refl => exact .inl rfl
  | residual s reason countDemotion before allowed inside occupied residual ih => cases allowed.1
  | base s reason countEviction before allowed inside occupied bare ih =>
    rcases ih with same | cleared
    · exact .inr (same ▸ allowed.2.2)
    · exact .inr cleared

end Runs

theorem retouches_floor {c d : ExpertCache} (touched : Retouches c d) (l : Nat) : AtFloor (d.layers l) ↔ AtFloor (c.layers l) := by
  obtain ⟨entries, clock, stats, layers, rfl, _, _, planned⟩ := touched
  obtain ⟨floor, bytes, _, entries, _⟩ := planless_same (planned l)
  exact at_floor_same floor bytes entries

theorem retouches_honour {c d : ExpertCache} (touched : Retouches c d) : FloorsHonoured c d ∧ PinsHonoured c d := by
  have floors := retouches_floor touched
  obtain ⟨entries, clock, stats, layers, rfl, same, _, _⟩ := touched
  have kept : ∀ i, (c.entries i).occupied → PlanesKept (c.entries i) (entries i) :=
    fun i occupied => planes_kept_retouched (same i) occupied
  refine ⟨fun l _ => ⟨(floors l).mpr, fun _ i _ live _ => ?_⟩, fun i _ live _ => kept i live⟩
  exact ⟨(kept i live).occupied, (kept i live).key, (kept i live).base⟩

theorem honour_admission {c b d e : ExpertCache} (inv : Inv b) (touched : Retouches c b)
    (same : b.entries = c.entries) (run : Releases FloorAllowed b d)
    (kept : ∀ i, (d.entries i).occupied → PlanesKept (d.entries i) (e.entries i))
    (floors : ∀ l < c.config.layerCount.toNat, AtFloor (d.layers l) → AtFloor (e.layers l)) :
    FloorsHonoured c e ∧ PinsHonoured c e := by
  have config := retouches_config touched
  refine ⟨fun l bound => ?_, fun i inside live pinned => ?_⟩
  · obtain ⟨at_, below⟩ := releases_floor inv run l
    have start := retouches_floor touched l
    refine ⟨fun reached => floors l bound (at_ (start.mpr reached)), fun short i inside live on => ?_⟩
    obtain ⟨_, bases⟩ := below (fun reached => short (start.mp reached))
    obtain ⟨occupied, key, base⟩ := bases i (config ▸ inside) (same ▸ live) (same ▸ on)
    have last := kept i occupied
    rw [same] at key base
    exact ⟨last.occupied, last.key.trans key, last.base.trans base⟩
  · have still := releases_pins inv run i (same ▸ pinned)
    rw [same] at still
    have last := kept i (still ▸ live)
    rwa [still] at last

theorem admit_base_kept {c : ExpertCache} {bucket : Nat} (admissible : Admissible c slot bucket key request charge) (i : Nat)
    (live : (c.entries i).occupied) : PlanesKept (c.entries i) ((admitBase c slot bucket key request charge).entries i) := by
  obtain ⟨entries, clock, stats, layers, ticked, same, _, _⟩ := (next_clock_spec c).1
  have other : i ≠ slot := by
    rintro rfl
    rw [admissible.vacant] at live
    cases live
  have here : (admitBase c slot bucket key request charge).entries i = entries i := by
    simp only [admitBase, ticked, write_other _ _ _ _ other]
  rw [here]
  exact planes_kept_retouched (same i) live

theorem admit_base_floor {c : ExpertCache} (inv : Inv c) {bucket : Nat}
    (admissible : Admissible c slot bucket key request charge) (l : Nat)
    (reached : AtFloor (c.layers l)) : AtFloor ((admitBase c slot bucket key request charge).layers l) := by
  have ticks := (next_clock_spec c).1
  have live := retouches_inv inv ticks
  have ready := admissible_retouched admissible ticks
  rw [← retouches_floor ticks l] at reached
  unfold admitBase
  dsimp only
  generalize (nextClock c).1 = t at reached live ready
  by_cases here : l = key.layer.toNat
  · subst here
    obtain ⟨inBase, _, inCount, _⟩ := layer_in_stats live key.layer.toNat ready.layer
    obtain ⟨room, slots⟩ := ready.room
    have below := slots rfl
    have budget := t.config.budgetBytes.toNat_lt
    have size := t.config.maxEntries.toNat_lt
    have sum := live.usage.payload
    have bytes := u64_add (t.layers key.layer.toNat).baseBytes charge (by omega)
    have count := u32_add (t.layers key.layer.toNat).baseEntries 1 (by rw [UInt32.toNat_one]; omega)
    obtain ⟨entries, covered⟩ := reached
    rw [UInt32.le_iff_toNat_le] at entries
    rw [UInt64.le_iff_toNat_le] at covered
    rw [write_same]
    unfold AtFloor
    rw [UInt32.le_iff_toNat_le, UInt64.le_iff_toNat_le]
    dsimp only
    omega
  · rw [write_other _ _ _ _ here]
    exact reached

theorem admit_residual_kept {c : ExpertCache} (promotable : Promotable c slot key request charge) (i : Nat)
    (live : (c.entries i).occupied) : PlanesKept (c.entries i) ((admitResidual c slot key request charge).entries i) := by
  by_cases here : i = slot
  · subst here
    simp only [admitResidual, write_same]
    refine ⟨live, rfl, rfl, fun residual => ?_⟩
    rw [promotable.bare] at residual
    cases residual
  · simp only [admitResidual, write_other _ _ _ _ here]
    exact planes_kept_refl live

theorem admit_residual_floor (c : ExpertCache) (slot : Nat) (key : EcacheKey) (request : Admission) (charge : UInt64) (l : Nat) :
    AtFloor ((admitResidual c slot key request charge).layers l) ↔ AtFloor (c.layers l) := by
  unfold admitResidual
  dsimp only
  by_cases here : l = key.layer.toNat
  · subst here
    rw [write_same]
    exact at_floor_same rfl rfl rfl
  · rw [write_other _ _ _ _ here]

theorem insert_honours {c : ExpertCache} (inv : Inv c) (key : EcacheKey) (request : Admission) :
    FloorsHonoured c (ecacheInsertBase c key request).1 ∧ PinsHonoured c (ecacheInsertBase c key request).1 := by
  rcases insert_outcome inv key request with
    ⟨_, _, ⟨touched, _⟩⟩ | ⟨b, d, slot, bucket, charge, ⟨touched, same, _⟩, _, _, run, ok, _, eq⟩
  · exact retouches_honour touched
  · have live := retouches_inv inv touched
    have allowed := releases_weaken live run (fun _ _ _ _ _ allowed => auto_floor_allowed allowed)
    rw [eq]
    exact honour_admission live touched same allowed (admit_base_kept ok)
      (fun l _ => admit_base_floor (releases_inv live run) ok l)

theorem promote_honours {c : ExpertCache} (inv : Inv c) (key : EcacheKey) (request : Admission) :
    FloorsHonoured c (ecachePromote c key request).1 ∧ PinsHonoured c (ecachePromote c key request).1 ∧
      ∀ i < c.config.maxEntries.toNat, (c.entries i).occupied → (c.entries i).key = key →
        PlanesKept (c.entries i) ((ecachePromote c key request).1.entries i) := by
  rcases promote_outcome inv key request with ⟨_, ⟨touched, _⟩⟩ | ⟨b, d, slot, charge, ⟨touched, same, _⟩, run, ok, kept, eq⟩
  · obtain ⟨floors, pins⟩ := retouches_honour touched
    refine ⟨floors, pins, fun i _ live _ => ?_⟩
    obtain ⟨entries, clock, stats, layers, moved, same, _, _⟩ := touched
    rw [moved]
    exact planes_kept_retouched (same i) live
  · have live := retouches_inv inv touched
    have allowed := releases_weaken live run (fun _ _ _ _ _ allowed => auto_floor_allowed allowed)
    have config := (releases_config live run).1.trans (retouches_config touched)
    rw [eq]
    obtain ⟨floors, pins⟩ := honour_admission live touched same allowed (admit_residual_kept ok)
      (fun l _ => (admit_residual_floor d slot key request charge l).mpr)
    refine ⟨floors, pins, fun i inside occupied named => ?_⟩
    have here : i = slot := by
      have holds := ok.occupied
      have keyed := ok.named
      rw [kept] at holds keyed
      exact inv.entries.keys i inside slot (config ▸ ok.inside) occupied holds (named.trans keyed.symm)
    subst here
    have last := admit_residual_kept ok i ok.occupied
    rwa [kept] at last

-- What apply_pressure passed to the callback: residuals first, and a base only once every
-- unpinned residual of the cache has been passed too.
structure PressureEvents (c : ExpertCache) (pressure : EcachePressure) (events : List EcacheReleaseEvent) :
    Prop where
  warn : pressure = .warn → ∀ event ∈ events, event.plane = .residual
  critical : ∀ before event after, events = before ++ event :: after → event.plane = .base →
    ∀ i < c.config.maxEntries.toNat, residualEligible (c.entries i) = true →
      ∃ reason, residualEvent (c.entries i) reason ∈ before

theorem pressure_events {c b mid d : ExpertCache} {pressure : EcachePressure} (inv : Inv b)
    (same : b.entries = c.entries) (config : b.config = c.config) (log : b.released = c.released)
    (residuals : Releases ResidualAllowed b mid) (bases : Releases BaseAllowed mid d) (warn : pressure = .warn → d = mid) :
    ∃ events, d.released = c.released ++ events ∧ PressureEvents c pressure events ∧
      d.stats.payloadBytes.toNat + (events.map fun event => event.chargedBytes.toNat).sum = b.stats.payloadBytes.toNat := by
  have midInv := releases_inv inv residuals
  obtain ⟨first, firstLog, firstPaid, left⟩ := releases_account inv residuals
  obtain ⟨second, secondLog, secondPaid, _⟩ := releases_account midInv bases
  obtain ⟨first', firstLog', allResidual⟩ := releases_planes .residual inv residuals (fun _ _ _ allowed => allowed.1)
  obtain ⟨second', secondLog', allBase⟩ := releases_planes .base midInv bases (fun _ _ _ allowed => allowed.1)
  have firstSame : first' = first := List.append_cancel_left (firstLog'.symm.trans firstLog)
  have secondSame : second' = second := List.append_cancel_left (secondLog'.symm.trans secondLog)
  subst firstSame secondSame
  refine ⟨first' ++ second', by rw [secondLog, firstLog, log, List.append_assoc], ⟨?_, ?_⟩, ?_⟩
  · intro level event member
    have none : second' = [] := by
      have logged := secondLog
      rw [warn level] at logged
      simpa using logged
    rw [none, List.append_nil] at member
    exact allResidual event member
  · intro before event after split base i inside eligible
    -- A base sits behind all of `first'`, which holds every residual that has gone.
    rcases bases_cleared bases with unchanged | cleared
    · have none : second' = [] := by
        have logged := secondLog
        rw [unchanged] at logged
        simpa using logged
      rw [none, List.append_nil] at split
      have plane := allResidual event (split ▸ List.mem_append_right _ List.mem_cons_self)
      rw [plane] at base
      cases base
    · have long : first'.length ≤ before.length := by
        by_contra short
        push Not at short
        have at_ : (first' ++ second')[before.length]? = some event := by simp [split]
        rw [List.getElem?_append_left short] at at_
        have plane := allResidual event (List.mem_of_getElem? at_)
        rw [plane] at base
        cases base
      have isPrefix : first' <+: before :=
        List.prefix_of_prefix_length_le (List.prefix_append _ _)
          (by rw [split]; exact List.prefix_append _ _) long
      have parts := eligible
      simp only [residualEligible, Bool.and_eq_true] at parts
      have gone := choose_residual_none.mp cleared i (by
        rw [(releases_config inv residuals).1, config]
        exact inside)
      rcases left i (same ▸ parts.1.1) (same ▸ parts.1.2) with still | ⟨reason, member⟩
      · rw [still, same, eligible] at gone
        cases gone
      · rw [same] at member
        exact ⟨reason, isPrefix.subset member⟩
  · rw [List.map_append, List.sum_append]
    omega

theorem pressure_honours {c : ExpertCache} (inv : Inv c) (pressure : EcachePressure) (target : UInt64) (out : Bool) :
    FloorsHonoured c (ecacheApplyPressure c pressure target out).1 ∧
      PinsHonoured c (ecacheApplyPressure c pressure target out).1 := by
  rcases pressure_cases inv pressure target out with
    ⟨_, same, _⟩ | ⟨_, b, mid, d, reason, touched, same, residuals, _, bases, _, _, eq⟩
  · rw [same]
    exact retouches_honour (retouches_refl c)
  · have live := retouches_inv inv touched
    have first : Releases FloorAllowed b mid := releases_weaken live residuals (by
      rintro _ _ _ _ _ ⟨rfl, unpinned⟩
      exact unpinned)
    have second : Releases FloorAllowed mid d := releases_weaken (releases_inv live residuals) bases (by
      rintro _ _ _ _ _ ⟨rfl, allows, _⟩
      exact allows)
    rw [eq]
    exact honour_admission live touched same (releases_trans first second)
      (fun _ occupied => planes_kept_refl occupied) (fun _ _ reached => reached)

theorem pressure_exhausted {c : ExpertCache} (inv : Inv c) (pressure : EcachePressure) (target : UInt64)
    (out : Bool) (short : (ecacheApplyPressure c pressure target out).2.status = .reclaimedPart) :
    chooseResidual (ecacheApplyPressure c pressure target out).1 = none ∧
      (pressure = .critical → chooseBase (ecacheApplyPressure c pressure target out).1 none false = none) := by
  rcases pressure_cases inv pressure target out with
    ⟨_, _, _, refused⟩ | ⟨pressed, b, mid, d, reason, touched, _, residuals, stopped, bases, warn, critical, eq⟩
  · exact absurd short refused
  · rw [eq] at short ⊢
    have above : d.stats.payloadBytes > target := by
      by_contra fits
      rw [gt_iff_lt, UInt64.not_lt] at fits
      simp [fits] at short
    dsimp only
    rcases pressed.1 with level | level
    · rw [warn level] at above ⊢
      refine ⟨by simpa [pressureResidualStep, above] using stopped, fun other => ?_⟩
      rw [level] at other
      cases other
    · obtain ⟨done, cleared⟩ := critical level
      exact ⟨cleared above, fun _ => by simpa [pressureBaseStep, above] using done⟩

end SamosaChat.Ecache
