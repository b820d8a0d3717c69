import SamosaChat.Ecache.Floors
import SamosaChat.Ecache.RoomProof

set_option autoImplicit false

namespace SamosaChat.Ecache

open Slots

structure SamePins (c d : ExpertCache) : Prop where
  touched : Retouches c d
  pins : ∀ i, (d.entries i).pinCount = (c.entries i).pinCount

theorem next_clock_pins (c : ExpertCache) (i : Nat) : ((nextClock c).1.entries i).pinCount = (c.entries i).pinCount := by
  unfold nextClock
  split
  · dsimp only
    split
    · unfold halveClock
      split <;> rfl
    · rfl
  · rfl

theorem touch_entry_pins (c : ExpertCache) (slot i : Nat) : ((touchEntry c slot).entries i).pinCount = (c.entries i).pinCount := by
  unfold touchEntry
  dsimp only
  by_cases here : i = slot
  · rw [here, write_same]
    dsimp only
    rw [next_clock_pins]
    simp only [write_same]
  · rw [write_other _ _ _ _ here, next_clock_pins]
    simp only [write_other _ _ _ _ here]

def Resides (c : ExpertCache) (key : EcacheKey) : Prop :=
  ∃ i < c.config.maxEntries.toNat, (c.entries i).occupied ∧ (c.entries i).key = key

instance (c : ExpertCache) (key : EcacheKey) : Decidable (Resides c key) :=
  inferInstanceAs (Decidable (∃ i < c.config.maxEntries.toNat, (c.entries i).occupied ∧ (c.entries i).key = key))

section Calls

variable {c : ExpertCache} {key : EcacheKey}

theorem get_base (inv : Inv c) (layer : key.layer < c.config.layerCount) :
    SamePins c (ecacheGet c key .requireBase true).1 ∧ (ecacheGet c key .requireBase true).2.status = .ok ∧
      ((ecacheGet c key .requireBase true).2.result = some .hit ∧ Resides c key ∨
        (ecacheGet c key .requireBase true).2.result = some .baseMiss ∧ ¬ Resides c key) := by
  have touched := get_retouches c key .requireBase true
  unfold ecacheGet at touched ⊢
  rw [if_neg (by simpa using inv.given), if_neg (UInt32.not_le.mpr layer), if_neg (by simp)] at touched ⊢
  cases found : hashFind c key with
  | missing bucket =>
    rw [found] at touched
    refine ⟨⟨touched, fun _ => rfl⟩, rfl, .inr ⟨rfl, ?_⟩⟩
    rintro ⟨i, inside, occupied, named⟩
    exact hash_find_missing c key bucket inv.sizes inv.index found i inside occupied named
  | found bucket slot =>
    obtain ⟨inside, occupied, named⟩ := hash_find_found c key bucket slot inv.sizes inv.index found
    rw [found] at touched
    exact ⟨⟨touched, touch_entry_pins c slot⟩, rfl, .inl ⟨rfl, slot, inside, occupied, named⟩⟩

section Resident

variable (inv : Inv c) {i : Nat} (inside : i < c.config.maxEntries.toNat) (occupied : (c.entries i).occupied)
include inv inside occupied

theorem find_resident : ∃ bucket, hashFind c (c.entries i).key = .found bucket i := by
  obtain ⟨bucket, _, _, found⟩ := hash_find_occupied c i inv.sizes inv.index inside occupied
  exact ⟨bucket, found⟩

theorem pin_resident (room : (c.entries i).pinCount ≠ UInt32.ofNat (2 ^ 32 - 1)) :
    (ecachePin c (c.entries i).key).2.status = .ok ∧
      (ecachePin c (c.entries i).key).2.view =
        some (fillView { c.entries i with pinCount := (c.entries i).pinCount + 1 }) ∧
      (ecachePin c (c.entries i).key).1.entries =
        write c.entries i { c.entries i with pinCount := (c.entries i).pinCount + 1 } := by
  have layer := (inv.entries.valid i inside occupied).layer
  obtain ⟨bucket, found⟩ := find_resident inv inside occupied
  unfold ecachePin
  rw [if_neg inv.given, if_neg (UInt32.not_le.mpr (UInt32.lt_iff_toNat_lt.mpr layer)), found]
  dsimp only
  rw [if_neg room]
  exact ⟨rfl, rfl, rfl⟩

theorem unpin_resident (pinned : (c.entries i).pinCount ≠ 0) :
    (ecacheUnpin c (c.entries i).key).1.entries =
        write c.entries i { c.entries i with pinCount := (c.entries i).pinCount - 1 } := by
  have layer := (inv.entries.valid i inside occupied).layer
  obtain ⟨bucket, found⟩ := find_resident inv inside occupied
  unfold ecacheUnpin
  rw [if_neg inv.given, if_neg (UInt32.not_le.mpr (UInt32.lt_iff_toNat_lt.mpr layer)), found]
  dsimp only
  rw [if_neg pinned]

end Resident

theorem asks_base (inv : Inv c) {request : Admission} {charge : UInt64} (nonzero : request.payload ≠ 0)
    (layer : key.layer < c.config.layerCount) (admission : request.admission = .demand ∨ request.admission = .prefetch)
    (charged : payloadCharge c.config request.logicalBytes = .ok charge) (absent : ¬ Resides c key)
    (unused : ∀ i < c.config.maxEntries.toNat, ¬ CarriesHandle (c.entries i) request.payload) : BaseAsks c key request charge where
  payload := nonzero
  layer := layer
  admission := admission
  charged := charged
  missing := by
    cases found : hashFind c key with
    | missing bucket => exact ⟨bucket, rfl⟩
    | found bucket slot =>
      obtain ⟨inside, occupied, named⟩ := hash_find_found c key bucket slot inv.sizes inv.index found
      exact absurd ⟨slot, inside, occupied, named⟩ absent
  unused := by
    refine List.any_eq_false.mpr fun i member uses => ?_
    simp only [Bool.and_eq_true, Bool.or_eq_true, beq_iff_eq] at uses
    exact unused i (List.mem_range.mp member) uses

end Calls

-- What a call that may evict does to the entries: pinned ones stay as they are, others stay or go with
-- their payloads released, and what was released was unpinned and is held by nobody any more.
structure Evicts (c d : ExpertCache) : Prop where
  config : d.config = c.config
  pinned : ∀ i, (c.entries i).pinCount ≠ 0 → d.entries i = c.entries i
  kept : ∀ i, Shrunk (c.entries i) (d.entries i)
  released : ∃ events, d.released = c.released ++ events ∧ ∀ event ∈ events,
    ReleasedFrom (fun entry => entry.pinCount = 0) c event ∧
      ∀ i < c.config.maxEntries.toNat, ¬ CarriesHandle (d.entries i) event.payload

theorem evicts_same (c d : ExpertCache) (config : d.config = c.config) (entries : d.entries = c.entries)
    (released : d.released = c.released) : Evicts c d where
  config := config
  pinned _ _ := by rw [entries]
  kept _ := by
    rw [entries]
    exact .same
  released := ⟨[], by simp [released], fun _ none => absurd none List.not_mem_nil⟩

theorem shrunk_base {old new : CacheEntry} (shrunk : Shrunk old new) (live : new.occupied) :
    new.baseLogical = old.baseLogical ∧ (old.hasResidual = false → new.hasResidual = false) := by
  cases shrunk with
  | same => exact ⟨rfl, id⟩
  | demoted _ _ => exact ⟨rfl, fun _ => rfl⟩
  | evicted _ => cases live

theorem releases_forget {Allowed : ExpertCache → Nat → EcachePlane → Prop} {c d : ExpertCache} (inv : Inv c)
    (run : Releases Allowed c d) :
    ∃ events, d.released = c.released ++ events ∧ ∀ event ∈ events, ∀ i < c.config.maxEntries.toNat,
      ¬ CarriesHandle (d.entries i) event.payload := by
  induction run with
  | refl => exact ⟨[], by simp, fun _ none => absurd none List.not_mem_nil⟩
  | @residual d s reason countDemotion before _ inside occupied residual ih =>
    obtain ⟨events, logged, gone⟩ := ih
    have live := releases_inv inv before
    have config := (releases_config inv before).1
    have frame := (release_residual_frame live s inside occupied residual reason countDemotion).1
    have valid := live.entries.valid s inside occupied
    refine ⟨events ++ [residualEvent (d.entries s) reason], by rw [frame.released, logged, List.append_assoc], ?_⟩
    intro event member i within
    rw [frame.entries]
    rcases List.mem_append.mp member with old | new
    · by_cases here : i = s
      · subst here
        rw [write_same]
        exact fun carries => gone event old i within (drop_residual_carries carries)
      · rw [write_other _ _ _ _ here]
        exact gone event old i within
    · rw [List.mem_singleton.mp new]
      by_cases here : i = s
      · subst here
        rw [write_same]
        rintro ⟨_, base | ⟨still, _⟩⟩
        · exact (valid.residual residual).separate base.symm
        · simp [dropResidual] at still
      · rw [write_other _ _ _ _ here]
        intro carries
        exact here (live.entries.handles i (config ▸ within) s inside _ carries ⟨occupied, .inr ⟨residual, rfl⟩⟩)
  | @base d s reason countEviction before _ inside occupied bare ih =>
    obtain ⟨events, logged, gone⟩ := ih
    have live := releases_inv inv before
    have config := (releases_config inv before).1
    have frame := (release_bare_base_frame live s inside occupied reason countEviction).1
    refine ⟨events ++ [baseEvent (d.entries s) reason], by rw [frame.released, logged, List.append_assoc], ?_⟩
    intro event member i within
    rw [frame.entries]
    by_cases here : i = s
    · subst here
      rw [write_same]
      intro carries
      cases carries.1
    · rw [write_other _ _ _ _ here]
      rcases List.mem_append.mp member with old | new
      · exact gone event old i within
      · rw [List.mem_singleton.mp new]
        intro carries
        exact here (live.entries.handles i (config ▸ within) s inside _ carries ⟨occupied, .inl rfl⟩)

theorem releases_evict {c b d : ExpertCache} (inv : Inv b) (config : b.config = c.config)
    (entries : b.entries = c.entries) (released : b.released = c.released) (run : Releases FloorAllowed b d) : Evicts c d := by
  obtain ⟨events, logged, gone⟩ := releases_forget inv run
  obtain ⟨events', logged', from_⟩ := releases_unpinned inv entries config released run
    (fun _ _ _ => floor_allowed_unpinned)
  rw [released] at logged
  have same : events' = events := List.append_cancel_left (logged'.symm.trans logged)
  subst same
  refine ⟨(releases_config inv run).1.trans config, ?_, ?_, events', logged, fun event member => ⟨from_ event member, ?_⟩⟩
  · intro i pinned
    rw [← entries] at pinned ⊢
    exact releases_pins inv run i pinned
  · intro i
    rw [← entries]
    exact releases_shrunk inv run i
  · intro i within
    exact gone event member i (config ▸ within)

theorem pressure_evicts {c : ExpertCache} (inv : Inv c) (pressure : EcachePressure) (target : UInt64) (out : Bool) :
    Evicts c (ecacheApplyPressure c pressure target out).1 := by
  rcases pressure_cases inv pressure target out with
    ⟨_, same, _⟩ | ⟨_, b, mid, d, reason, touched, entries, residuals, _, bases, _, _, eq⟩
  · rw [same]
    exact evicts_same c c rfl rfl rfl
  · have live := retouches_inv inv touched
    have first : Releases FloorAllowed b mid := releases_weaken live residuals
      (fun _ _ plane _ _ allowed => by
        obtain ⟨rfl, free⟩ := allowed
        exact free)
    have second : Releases FloorAllowed mid d := releases_weaken (releases_inv live residuals) bases
      (fun _ _ plane _ _ allowed => by
        obtain ⟨rfl, allows, _⟩ := allowed
        exact allows)
    rw [eq]
    exact releases_evict live (retouches_config touched) entries (retouches_released touched)
      (releases_trans first second)

-- An insertion that passes its checks either finds no room, and all entries stay, or evicts and then
-- writes one entry without a pin into a free slot.
theorem insert_evicts {c : ExpertCache} (inv : Inv c) {key : EcacheKey} {request : Admission} {charge : UInt64}
    (asks : BaseAsks c key request charge) : ((ecacheInsertBase c key request).2.status = .errNoSpace ∧
      Evicts c (ecacheInsertBase c key request).1 ∧ (ecacheInsertBase c key request).1.entries = c.entries ∧
        (ecacheInsertBase c key request).1.released = c.released) ∨
    ∃ d slot, Inv d ∧ Evicts c d ∧ slot < c.config.maxEntries.toNat ∧ (d.entries slot).occupied = false ∧
      (ecacheInsertBase c key request).2.status = .ok ∧ (ecacheInsertBase c key request).1.config = c.config ∧
      (ecacheInsertBase c key request).1.released = d.released ∧
      (∃ order, (ecacheInsertBase c key request).1.entries slot = newEntry key request charge order) ∧
      ∀ i ≠ slot, Retouched (d.entries i) ((ecacheInsertBase c key request).1.entries i) ∧
        ((ecacheInsertBase c key request).1.entries i).pinCount = (d.entries i).pinCount := by
  rcases insert_outcome inv key request with
    ⟨failed, sound, prepared⟩ | ⟨b, d, slot, bucket, paid, prepared, _, _, run, ok, absent, eq⟩
  · by_cases refused : (canMakeRoom c charge true none).2 = false
    · have outcome := insert_refused inv asks refused
      refine .inl ⟨by rw [outcome.reply], ?_⟩
      have config := retouches_config prepared.touched
      have released := retouches_released prepared.touched
      exact ⟨evicts_same _ _ config prepared.entries released, prepared.entries, released⟩
    · have granted : (canMakeRoom c charge true none).2 = true := by simpa using refused
      exact absurd ((insert_asked inv asks).2 granted) (fun done => done.elim failed sound)
  · have live := retouches_inv inv prepared.touched
    have charged := ok.charged
    have config := (releases_config live run).1.trans (retouches_config prepared.touched)
    rw [config, asks.charged] at charged
    cases charged
    have evicts := releases_evict live (retouches_config prepared.touched) prepared.entries
      (retouches_released prepared.touched) (releases_weaken live run fun _ _ _ _ _ => auto_floor_allowed)
    refine .inr ⟨d, slot, releases_inv live run, evicts, config ▸ ok.inside, ok.vacant, ?_⟩
    obtain ⟨entries, clock, stats, layers, ticked, touched, _⟩ := (next_clock_spec d).1
    have kept : (nextClock d).1.config = d.config := retouches_config (next_clock_spec d).1
    have log : (nextClock d).1.released = d.released := retouches_released (next_clock_spec d).1
    rw [eq]
    refine ⟨rfl, kept.trans config, log, ⟨(nextClock d).2, by simp [admitBase]⟩, fun i other => ?_⟩
    unfold admitBase
    dsimp only
    rw [write_other _ _ _ _ other]
    exact ⟨by rw [ticked]; exact touched i, next_clock_pins d i⟩

end SamosaChat.Ecache
