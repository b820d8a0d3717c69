import SamosaChat.Ecache.Admit

set_option autoImplicit false

namespace SamosaChat.Ecache

open Slots Words Iterate Probing

inductive Shrunk (old : CacheEntry) : CacheEntry → Prop where
  | same : Shrunk old old
  | demoted (occupied : old.occupied) (residual : old.hasResidual) : Shrunk old (dropResidual old)
  | evicted (occupied : old.occupied) : Shrunk old {}

theorem shrunk_occupied {old new : CacheEntry} (shrunk : Shrunk old new) (live : new.occupied) :
    old.occupied ∧ new.key = old.key ∧ new.basePayload = old.basePayload ∧ new.pinCount = old.pinCount := by
  cases shrunk with
  | same => exact ⟨live, rfl, rfl, rfl⟩
  | demoted occupied _ => exact ⟨occupied, rfl, rfl, rfl⟩
  | evicted _ => cases live

theorem shrunk_carries {old new : CacheEntry} (shrunk : Shrunk old new) {payload : Handle}
    (carries : CarriesHandle new payload) : CarriesHandle old payload := by
  cases shrunk with
  | same => exact carries
  | demoted _ _ => exact drop_residual_carries carries
  | evicted _ => simp [CarriesHandle] at carries

theorem shrunk_residual {old new : CacheEntry} (shrunk : Shrunk old new) (live : new.occupied)
    (residual : new.hasResidual) : new = old := by
  cases shrunk with
  | same => rfl
  | demoted _ _ => simp [dropResidual] at residual
  | evicted _ => cases live

section Runs

variable {Allowed : ExpertCache → Nat → EcachePlane → Prop} {c d : ExpertCache}

theorem releases_shrunk (inv : Inv c) (run : Releases Allowed c d) (i : Nat) : Shrunk (c.entries i) (d.entries i) := by
  induction run with
  | refl => exact .same
  | residual s reason countDemotion before _ inside occupied residual ih =>
    have frame := (release_residual_frame (releases_inv inv before) s inside occupied residual reason
      countDemotion).1
    rw [frame.entries]
    by_cases here : i = s
    · subst here
      rw [write_same, shrunk_residual ih occupied residual]
      have live := shrunk_occupied ih occupied
      exact .demoted live.1 (shrunk_residual ih occupied residual ▸ residual)
    · rwa [write_other _ _ _ _ here]
  | base s reason countEviction before _ inside occupied bare ih =>
    have frame := (release_bare_base_frame (releases_inv inv before) s inside occupied reason countEviction).1
    rw [frame.entries]
    by_cases here : i = s
    · subst here
      rw [write_same]
      exact .evicted (shrunk_occupied ih occupied).1
    · rwa [write_other _ _ _ _ here]

-- A release of what entry `i` of `c` held, while nobody had it pinned or whatever else
-- `Permitted` asks of that entry.
def ReleasedFrom (Permitted : CacheEntry → Prop) (c : ExpertCache) (event : EcacheReleaseEvent) : Prop :=
  ∃ i < c.config.maxEntries.toNat, (c.entries i).occupied ∧ Permitted (c.entries i) ∧
    ((c.entries i).hasResidual ∧ event = residualEvent (c.entries i) event.reason ∨
      event = baseEvent (c.entries i) event.reason)

theorem shrunk_base_event {old new : CacheEntry} (shrunk : Shrunk old new) (live : new.occupied)
    (reason : EcacheReleaseReason) : baseEvent new reason = baseEvent old reason := by
  cases shrunk with
  | same => rfl
  | demoted _ _ => rfl
  | evicted _ => cases live

theorem releases_events (Permitted : CacheEntry → Prop) (inv : Inv c) (run : Releases Allowed c d)
    (permitted : ∀ d s plane, Inv d → Allowed d s plane → Permitted (d.entries s))
    (kept : ∀ old new, Shrunk old new → new.occupied → Permitted new → Permitted old) :
    ∃ events, d.released = c.released ++ events ∧ ∀ event ∈ events, ReleasedFrom Permitted c event := by
  induction run with
  | refl => exact ⟨[], by simp, fun _ none => by simp at none⟩
  | @residual d s reason countDemotion before allowed inside occupied residual ih =>
    obtain ⟨events, was, from_⟩ := ih
    have live := releases_inv inv before
    have frame := (release_residual_frame live s inside occupied residual reason countDemotion).1
    have shrunk := releases_shrunk inv before s
    have same := shrunk_residual shrunk occupied residual
    refine ⟨events ++ [residualEvent (d.entries s) reason], by rw [frame.released, was, List.append_assoc], ?_⟩
    intro event member
    rcases List.mem_append.mp member with old | new
    · exact from_ event old
    · rw [List.mem_singleton.mp new]
      refine ⟨s, (releases_config inv before).1 ▸ inside, (shrunk_occupied shrunk occupied).1,
        kept _ _ shrunk occupied (permitted d s _ live allowed), .inl ⟨same ▸ residual, ?_⟩⟩
      rw [same]
      rfl
  | @base d s reason countEviction before allowed inside occupied bare ih =>
    obtain ⟨events, was, from_⟩ := ih
    have live := releases_inv inv before
    have frame := (release_bare_base_frame live s inside occupied reason countEviction).1
    have shrunk := releases_shrunk inv before s
    refine ⟨events ++ [baseEvent (d.entries s) reason], by rw [frame.released, was, List.append_assoc], ?_⟩
    intro event member
    rcases List.mem_append.mp member with old | new
    · exact from_ event old
    · rw [List.mem_singleton.mp new]
      exact ⟨s, (releases_config inv before).1 ▸ inside, (shrunk_occupied shrunk occupied).1,
        kept _ _ shrunk occupied (permitted d s _ live allowed), .inr (shrunk_base_event shrunk occupied reason)⟩

theorem releases_protected {slot : Nat} (inv : Inv c) (run : Releases (AutoAllowed (some slot)) c d)
    (bare : (c.entries slot).hasResidual = false) : d.entries slot = c.entries slot := by
  induction run with
  | refl => rfl
  | residual s reason countDemotion before _ inside occupied residual ih =>
    have frame := (release_residual_frame (releases_inv inv before) s inside occupied residual reason
      countDemotion).1
    have other : slot ≠ s := by
      rintro rfl
      rw [ih, bare] at residual
      cases residual
    rw [frame.entries, write_other _ _ _ _ other, ih]
  | base s reason countEviction before allowed inside occupied bare ih =>
    have frame := (release_bare_base_frame (releases_inv inv before) s inside occupied reason countEviction).1
    have other : slot ≠ s := fun same => allowed.2.1 (by rw [same])
    rw [frame.entries, write_other _ _ _ _ other, ih]

theorem releases_absent (inv : Inv c) (run : Releases Allowed c d) {key : EcacheKey}
    (absent : ∀ i < c.config.maxEntries.toNat, (c.entries i).occupied → (c.entries i).key ≠ key) :
    ∀ i < d.config.maxEntries.toNat, (d.entries i).occupied → (d.entries i).key ≠ key := by
  intro i inside live same
  rw [(releases_config inv run).1] at inside
  obtain ⟨occupied, named, _⟩ := shrunk_occupied (releases_shrunk inv run i) live
  exact absent i inside occupied (named.symm.trans same)

theorem releases_unused (inv : Inv c) (run : Releases Allowed c d) {payload : Handle}
    (unused : ∀ i < c.config.maxEntries.toNat, ¬ CarriesHandle (c.entries i) payload) :
    ∀ i < d.config.maxEntries.toNat, ¬ CarriesHandle (d.entries i) payload := by
  intro i inside carries
  rw [(releases_config inv run).1] at inside
  exact unused i inside (shrunk_carries (releases_shrunk inv run i) carries)

end Runs

theorem free_slot_some {c : ExpertCache} (inv : Inv c) (room : c.entryCount.toNat < c.config.maxEntries.toNat) :
    ∃ slot < c.config.maxEntries.toNat, freeSlot c = some slot ∧ (c.entries slot).occupied = false := by
  cases chosen : freeSlot c with
  | none =>
    have all : ∀ i < c.config.maxEntries.toNat, (c.entries i).occupied := by
      intro i inside
      have taken := List.find?_eq_none.mp chosen i (List.mem_range.mpr inside)
      simpa using taken
    have full := (full_iff c.entries _).mpr all
    have count := inv.usage.count
    omega
  | some slot =>
    have inside := List.mem_range.mp (List.mem_of_find?_eq_some chosen)
    have vacant := List.find?_some chosen
    exact ⟨slot, inside, rfl, by simpa using vacant⟩

theorem charge_error {config : EcacheConfig} {logical : UInt64} {status : EcacheStatus}
    (aligned : config.payloadAlignment ≠ 0) (refused : payloadCharge config logical = .error status) :
    status ≠ .ok ∧ status ≠ .errCorrupt := by
  rw [payloadCharge] at refused
  by_cases zero : logical = 0
  · rw [if_pos zero] at refused
    cases refused
    exact ⟨by decide, by decide⟩
  · rw [if_neg zero, if_neg aligned] at refused
    dsimp only at refused
    obtain ⟨wraps, refused⟩ := within_guard refused fun same => by cases same
    cases refused
    exact ⟨by decide, by decide⟩

theorem retouches_planless (c : ExpertCache) (layers : Nat → LayerState)
    (planned : ∀ l, planless (layers l) = planless (c.layers l)) : Retouches c { c with layers := layers } :=
  ⟨c.entries, c.clock, c.stats, layers, rfl, fun _ => retouched_refl _, same_totals_refl _, planned⟩

theorem failed_retouches (c : ExpertCache) : Retouches c (failAdmission c) :=
  retouches_stats c _ ⟨rfl, rfl, rfl, rfl, rfl, rfl, rfl⟩

theorem retouches_absent {c d : ExpertCache} (touched : Retouches c d) {key : EcacheKey}
    (absent : ∀ i < c.config.maxEntries.toNat, (c.entries i).occupied → (c.entries i).key ≠ key) :
    ∀ i < d.config.maxEntries.toNat, (d.entries i).occupied → (d.entries i).key ≠ key := by
  obtain ⟨entries, clock, stats, layers, rfl, same, _, _⟩ := touched
  intro i inside occupied
  rw [(same i).key]
  exact absent i inside ((same i).occupied ▸ occupied)

theorem retouches_unused {c d : ExpertCache} (touched : Retouches c d) {payload : Handle}
    (unused : ∀ i < c.config.maxEntries.toNat, ¬ CarriesHandle (c.entries i) payload) :
    ∀ i < d.config.maxEntries.toNat, ¬ CarriesHandle (d.entries i) payload := by
  obtain ⟨entries, clock, stats, layers, rfl, same, _, _⟩ := touched
  exact fun i inside carries => unused i inside ((retouched_carries (same i) payload).mp carries)

-- A state a call has reached without a release or an admission: telemetry and plan totals at most moved.
structure Prepared (c b : ExpertCache) : Prop where
  touched : Retouches c b
  entries : b.entries = c.entries
  clock : b.clock = c.clock

theorem prepared_refl (c : ExpertCache) : Prepared c c := ⟨retouches_refl c, rfl, rfl⟩

theorem prepared_planless (c : ExpertCache) (layers : Nat → LayerState)
    (planned : ∀ l, planless (layers l) = planless (c.layers l)) : Prepared c { c with layers := layers } :=
  ⟨retouches_planless c layers planned, rfl, rfl⟩

theorem prepared_failed {c b : ExpertCache} (prepared : Prepared c b) : Prepared c (failAdmission b) :=
  ⟨retouches_trans prepared.touched (failed_retouches b), prepared.entries, prepared.clock⟩

structure BaseAsks (c : ExpertCache) (key : EcacheKey) (request : Admission) (charge : UInt64) : Prop where
  payload : request.payload ≠ 0
  layer : key.layer < c.config.layerCount
  admission : request.admission = .demand ∨ request.admission = .prefetch
  charged : payloadCharge c.config request.logicalBytes = .ok charge
  missing : ∃ bucket, hashFind c key = .missing bucket
  unused : payloadInUse c request.payload = false

structure ResidualAsks (c : ExpertCache) (key : EcacheKey) (request : Admission) (slot : Nat) (charge : UInt64) :
    Prop where
  payload : request.payload ≠ 0
  layer : key.layer < c.config.layerCount
  admission : request.admission = .demand ∨ request.admission = .prefetch
  found : ∃ bucket, hashFind c key = .found bucket slot
  bare : (c.entries slot).hasResidual = false
  unused : payloadInUse c request.payload = false
  charged : payloadCharge c.config request.logicalBytes = .ok charge

theorem known_admission {admission : EcacheAdmission} (known : ¬ (admission ≠ .demand ∧ admission ≠ .prefetch)) :
    admission = .demand ∨ admission = .prefetch := by
  by_cases demand : admission = .demand
  · exact .inl demand
  · exact .inr (by_contra fun other => known ⟨demand, other⟩)

section Outcomes

variable {c : ExpertCache} (inv : Inv c) (key : EcacheKey) (request : Admission)
include inv key request

-- An insertion is refused with nothing released and nothing admitted, or its room is granted,
-- and it releases what the policy allows and writes one admissible entry.
theorem insert_outcome :
    ((ecacheInsertBase c key request).2.status ≠ .ok ∧ (ecacheInsertBase c key request).2.status ≠ .errCorrupt ∧
      Prepared c (ecacheInsertBase c key request).1) ∨
    ∃ b d slot bucket charge, Prepared c b ∧ BaseAsks c key request charge ∧
      (canMakeRoom c charge true none).2 = true ∧ Releases (AutoAllowed none) b d ∧
      Admissible d slot bucket key request charge ∧
      (∀ i < c.config.maxEntries.toNat, (c.entries i).occupied → (c.entries i).key ≠ key) ∧
      ecacheInsertBase c key request =
        (admitBase d slot bucket key request charge,
          { status := .ok, view := some (fillView ((admitBase d slot bucket key request charge).entries slot)) }) := by
  unfold ecacheInsertBase
  split
  · exact .inl ⟨by simp, by simp, prepared_refl c⟩
  rename_i valid
  split
  · exact .inl ⟨by simp, by simp, prepared_refl c⟩
  rename_i layer
  split
  · exact .inl ⟨by simp, by simp, prepared_refl c⟩
  rename_i known
  cases charged : payloadCharge c.config request.logicalBytes with
  | error status =>
    obtain ⟨failed, sound⟩ := charge_error inv.alignment charged
    exact .inl ⟨failed, sound, prepared_refl c⟩
  | ok charge =>
    cases found : hashFind c key with
    | found bucket slot => exact .inl ⟨by simp, by simp, prepared_refl c⟩
    | missing bucket =>
      dsimp only
      split
      · exact .inl ⟨by simp, by simp, prepared_refl c⟩
      rename_i unused
      obtain ⟨layers, proof, planned, made⟩ := can_make_room_spec inv charge true none
      have prepared := prepared_planless c layers planned
      have touched := prepared.touched
      rw [proof]
      split
      · exact .inl ⟨by simp, by simp, prepared_failed prepared⟩
      rename_i answer
      have granted : (canMakeRoom c charge true none).2 = true := by simpa using answer
      have live := retouches_inv inv touched
      obtain ⟨run, _⟩ := make_room_releases live charge true none
      have room := made granted
      have absent := hash_find_missing c key _ inv.sizes inv.index found
      have free := payload_unused (by simpa using unused)
      have payload : request.payload ≠ 0 := by
        intro zero
        simp [zero] at valid
      have inLayers : key.layer < c.config.layerCount := by
        simpa [UInt32.lt_iff_toNat_lt, UInt32.le_iff_toNat_le] using layer
      generalize makeRoom { c with layers := layers } charge true none = d at run room
      have final := releases_inv live run
      have config := (releases_config live run).1
      obtain ⟨slot, inside, chosen, vacant⟩ := free_slot_some final (room.2 rfl)
      obtain ⟨b, _, missed, _⟩ := hash_find_absent d key final.sizes final.index
        (fun i _ within occupied => releases_absent live run (retouches_absent touched absent) i within occupied)
      refine .inr ⟨{ c with layers := layers }, d, slot, b, charge, prepared, ?_, granted, run, ?_, absent,
        by simp [chosen, missed]⟩
      · exact ⟨payload, inLayers, known_admission known, charged, ⟨bucket, found⟩, by simpa using unused⟩
      · refine ⟨inside, vacant, ?_, payload, ?_, missed, releases_unused live run (retouches_unused touched free), room⟩
        · rw [config]
          exact UInt32.lt_iff_toNat_lt.mp inLayers
        · rw [config]
          exact charged

theorem promote_outcome :
    ((ecachePromote c key request).2.status ≠ .ok ∧ Prepared c (ecachePromote c key request).1) ∨
    ∃ b d slot charge, Prepared c b ∧ Releases (AutoAllowed (some slot)) b d ∧
      Promotable d slot key request charge ∧ d.entries slot = c.entries slot ∧
      ecachePromote c key request =
        (admitResidual d slot key request charge,
          { status := .ok, view := some (fillView ((admitResidual d slot key request charge).entries slot)) }) := by
  unfold ecachePromote
  split
  · exact .inl ⟨by simp, prepared_refl c⟩
  rename_i valid
  split
  · exact .inl ⟨by simp, prepared_refl c⟩
  split
  · exact .inl ⟨by simp, prepared_refl c⟩
  cases found : hashFind c key with
  | missing bucket => exact .inl ⟨by simp, prepared_refl c⟩
  | found bucket slot =>
    dsimp only
    split
    · exact .inl ⟨by simp, prepared_refl c⟩
    rename_i bare
    split
    · exact .inl ⟨by simp, prepared_refl c⟩
    rename_i unused
    cases charged : payloadCharge c.config request.logicalBytes with
    | error status => exact .inl ⟨(charge_error inv.alignment charged).1, prepared_refl c⟩
    | ok charge =>
      dsimp only
      obtain ⟨layers, proof, planned, made⟩ := can_make_room_spec inv charge false (some slot)
      have prepared := prepared_planless c layers planned
      have touched := prepared.touched
      rw [proof]
      split
      · exact .inl ⟨by simp, prepared_failed prepared⟩
      rename_i answer
      have live := retouches_inv inv touched
      obtain ⟨run, _⟩ := make_room_releases live charge false (some slot)
      have room := made (by simpa using answer)
      have free := payload_unused (by simpa using unused)
      obtain ⟨inside, occupied, named⟩ := hash_find_found c key bucket slot inv.sizes inv.index found
      generalize makeRoom { c with layers := layers } charge false (some slot) = d at run room
      have config := (releases_config live run).1
      have kept : d.entries slot = ({ c with layers := layers } : ExpertCache).entries slot :=
        releases_protected live run (by simpa using bare)
      refine .inr ⟨{ c with layers := layers }, d, slot, charge, prepared, run, ?_, kept, rfl⟩
      refine ⟨?_, ?_, ?_, ?_, ?_, ?_, releases_unused live run (retouches_unused touched free), room⟩
      · rw [config]
        exact inside
      · rw [kept]
        exact occupied
      · rw [kept]
        exact named
      · rw [kept]
        simpa using bare
      · intro zero
        simp [zero] at valid
      · rw [config]
        exact charged

end Outcomes

def Unpinned (d : ExpertCache) (s : Nat) (_ : EcachePlane) : Prop :=
  (d.entries s).pinCount = 0

theorem auto_unpinned {protectedSlot : Option Nat} {d : ExpertCache} {s : Nat} {plane : EcachePlane}
    (allowed : AutoAllowed protectedSlot d s plane) : Unpinned d s plane := by
  cases plane with
  | residual => exact allowed
  | base => exact (floor_allows_live allowed.1).2.1

theorem release_entry {c : ExpertCache} (inv : Inv c) (s : Nat) (inside : s < c.config.maxEntries.toNat)
    (occupied : (c.entries s).occupied) (unpinned : (c.entries s).pinCount = 0) (reason : EcacheReleaseReason) :
    ∃ d, releaseBase (if (c.entries s).hasResidual then releaseResidual c s reason false else c) s reason false = d ∧
      Releases Unpinned c d ∧ d.entries = write c.entries s {} := by
  by_cases residual : (c.entries s).hasResidual
  · have live := release_residual_inv inv s inside occupied residual reason false
    have frame := (release_residual_frame inv s inside occupied residual reason false).1
    have here : (releaseResidual c s reason false).entries s = dropResidual (c.entries s) := by
      rw [frame.entries, write_same]
    have inside' : s < (releaseResidual c s reason false).config.maxEntries.toNat := by
      rw [frame.config]
      exact inside
    have bare : ((releaseResidual c s reason false).entries s).hasResidual = false := by rw [here]; rfl
    have still : ((releaseResidual c s reason false).entries s).occupied := by rw [here]; exact occupied
    have next := (release_bare_base_frame live s inside' still reason false).1
    refine ⟨_, rfl, ?_, ?_⟩
    · rw [if_pos residual, release_base_bare _ s reason false still bare]
      exact .base s reason false (.residual s reason false .refl unpinned inside occupied residual)
        (by unfold Unpinned; rw [here]; exact unpinned) inside' still bare
    · rw [if_pos residual, release_base_bare _ s reason false still bare, next.entries, frame.entries]
      funext i
      by_cases same : i = s <;> simp [same]
  · have bare : (c.entries s).hasResidual = false := by simpa using residual
    have frame := (release_bare_base_frame inv s inside occupied reason false).1
    refine ⟨_, rfl, ?_, ?_⟩
    · rw [if_neg residual, release_base_bare c s reason false occupied bare]
      exact .base s reason false .refl unpinned inside occupied bare
    · rw [if_neg residual, release_base_bare c s reason false occupied bare]
      exact frame.entries

theorem remove_cases {c : ExpertCache} (inv : Inv c) (key : EcacheKey) :
    ((ecacheRemove c key).2.status ≠ .ok ∧ (ecacheRemove c key).1 = c) ∨
    (Releases Unpinned c (ecacheRemove c key).1 ∧ (ecacheRemove c key).2.status = .ok) := by
  unfold ecacheRemove
  split
  · exact .inl ⟨by simp, rfl⟩
  split
  · exact .inl ⟨by simp, rfl⟩
  cases found : hashFind c key with
  | missing bucket => exact .inl ⟨by simp, rfl⟩
  | found bucket slot =>
    dsimp only
    split
    · exact .inl ⟨by simp, rfl⟩
    rename_i unpinned
    obtain ⟨inside, occupied, _⟩ := hash_find_found c key bucket slot inv.sizes inv.index found
    obtain ⟨d, removed, run, _⟩ := release_entry inv slot inside occupied (by simpa using unpinned) .explicit
    rw [removed]
    exact .inr ⟨run, rfl⟩

def ResidualAllowed (d : ExpertCache) (s : Nat) (plane : EcachePlane) : Prop :=
  plane = .residual ∧ (d.entries s).pinCount = 0

def BaseAllowed (d : ExpertCache) (s : Nat) (plane : EcachePlane) : Prop :=
  plane = .base ∧ baseFloorAllows d s false = true ∧ chooseResidual d = none

theorem pressure_residuals_spec {c : ExpertCache} (inv : Inv c) (target : UInt64) (reason : EcacheReleaseReason) :
    Releases ResidualAllowed c (pressureResiduals c target reason) ∧
      pressureResidualStep target reason (pressureResiduals c target reason) = none := by
  have stepped : ∀ s t, Inv s → pressureResidualStep target reason s = some t →
      Releases ResidualAllowed s t ∧ planesOf t < planesOf s := by
    intro s t live step
    unfold pressureResidualStep at step
    split at step
    · obtain ⟨slot, chosen, rfl⟩ := Option.map_eq_some_iff.mp step
      obtain ⟨inside, occupied, residual, unpinned⟩ := choose_residual_some chosen
      have fewer := release_residual_fewer live slot inside occupied residual reason true
      exact ⟨.residual slot reason true .refl ⟨rfl, unpinned⟩ inside occupied residual, by omega⟩
    · cases step
  have preserved : ∀ s t, Inv s ∧ Releases ResidualAllowed c s →
      pressureResidualStep target reason s = some t → Inv t ∧ Releases ResidualAllowed c t := by
    intro s t good step
    have run := (stepped s t good.1 step).1
    exact ⟨releases_inv good.1 run, releases_trans good.2 run⟩
  exact ⟨(iterate_invariant (n := 2 * c.slotCount) preserved ⟨inv, .refl⟩).2,
    iterate_stopped (n := 2 * c.slotCount) planesOf preserved
      (fun s t good step => (stepped s t good.1 step).2) ⟨inv, .refl⟩ (planes_bound c)⟩

theorem pressure_base_step_releases {c d : ExpertCache} {target : UInt64} (inv : Inv c)
    (cleared : c.stats.payloadBytes > target → chooseResidual c = none) (step : pressureBaseStep target c = some d) :
    Releases BaseAllowed c d ∧ chooseResidual d = none ∧ planesOf d < planesOf c := by
  unfold pressureBaseStep at step
  split at step
  · rename_i above
    obtain ⟨slot, chosen, rfl⟩ := Option.map_eq_some_iff.mp step
    obtain ⟨inside, _, allows⟩ := choose_base_some chosen
    have gone := cleared above
    have bare := allowed_base_bare inside gone allows
    have occupied := (floor_allows_live allows).1
    have fewer := release_bare_base_fewer inv slot inside occupied bare .pressureCritical true
    have frame := (release_bare_base_frame inv slot inside occupied .pressureCritical true).1
    rw [release_base_bare c slot .pressureCritical true occupied bare]
    refine ⟨.base slot .pressureCritical true .refl ⟨rfl, allows, gone⟩ inside occupied bare, ?_, by omega⟩
    rw [choose_residual_none, frame.config, frame.entries]
    intro i within
    by_cases here : i = slot
    · simp [here, residualEligible]
    · rw [write_other _ _ _ _ here]
      exact choose_residual_none.mp gone i within
  · cases step

def BaseRound (target : UInt64) (c s : ExpertCache) : Prop :=
  (Inv s ∧ (s.stats.payloadBytes > target → chooseResidual s = none)) ∧ Releases BaseAllowed c s

theorem base_round_step {c : ExpertCache} {target : UInt64} (s t : ExpertCache) (good : BaseRound target c s)
    (step : pressureBaseStep target s = some t) : BaseRound target c t := by
  obtain ⟨run, gone, _⟩ := pressure_base_step_releases good.1.1 good.1.2 step
  exact ⟨⟨releases_inv good.1.1 run, fun _ => gone⟩, releases_trans good.2 run⟩

theorem pressure_bases_spec {c : ExpertCache} (inv : Inv c) (target : UInt64)
    (cleared : c.stats.payloadBytes > target → chooseResidual c = none) : Releases BaseAllowed c (pressureBases c target) ∧
      pressureBaseStep target (pressureBases c target) = none ∧
      ((pressureBases c target).stats.payloadBytes > target → chooseResidual (pressureBases c target) = none) := by
  have initial : BaseRound target c c := ⟨⟨inv, cleared⟩, .refl⟩
  have ends := iterate_invariant (n := 2 * c.slotCount) base_round_step initial
  exact ⟨ends.2, iterate_stopped (n := 2 * c.slotCount) planesOf base_round_step
      (fun s t good step => (pressure_base_step_releases good.1.1 good.1.2 step).2.2) initial (planes_bound c),
    ends.1.2⟩

theorem count_pressure_retouches (c : ExpertCache) (pressure : EcachePressure) : Retouches c (countPressure c pressure) := by
  unfold countPressure
  split
  · exact retouches_stats c _ ⟨rfl, rfl, rfl, rfl, rfl, rfl, rfl⟩
  · exact retouches_stats c _ ⟨rfl, rfl, rfl, rfl, rfl, rfl, rfl⟩

theorem retouches_payload {c d : ExpertCache} (touched : Retouches c d) : d.stats.payloadBytes = c.stats.payloadBytes := by
  obtain ⟨entries, clock, stats, layers, rfl, _, totals, _⟩ := touched
  exact totals.payload

theorem releases_payload {Allowed : ExpertCache → Nat → EcachePlane → Prop} {c d : ExpertCache} (inv : Inv c)
    (run : Releases Allowed c d) : d.stats.payloadBytes.toNat ≤ c.stats.payloadBytes.toNat := by
  induction run with
  | refl => exact Nat.le_refl _
  | residual s reason countDemotion before _ inside occupied residual ih =>
    have live := releases_inv inv before
    have frame := (release_residual_frame live s inside occupied residual reason countDemotion).1
    have paid := u64_sub _ _ (residual_contributes live s inside occupied residual).2.1
    rw [frame.payload]
    simp only [residualEvent]
    omega
  | base s reason countEviction before _ inside occupied bare ih =>
    have live := releases_inv inv before
    have frame := (release_bare_base_frame live s inside occupied reason countEviction).1
    have paid := u64_sub _ _ (base_contributes live s inside occupied).2.1
    rw [frame.payload]
    simp only [baseEvent]
    omega

-- The calls that get past the argument checks and are not NORMAL.
def Pressed (c : ExpertCache) (pressure : EcachePressure) (target : UInt64) (out : Bool) : Prop :=
  (pressure = .warn ∨ pressure = .critical) ∧ out = true ∧ target ≤ c.config.budgetBytes

-- A pressure call is rejected, is NORMAL and does nothing, or drops residuals until the
-- target or the last unpinned one, and only then, at CRITICAL, bases.
theorem pressure_cases {c : ExpertCache} (inv : Inv c) (pressure : EcachePressure) (target : UInt64) (out : Bool) :
    (¬ Pressed c pressure target out ∧ (ecacheApplyPressure c pressure target out).1 = c ∧
      (ecacheApplyPressure c pressure target out).2.reclaimed = 0 ∧
      (ecacheApplyPressure c pressure target out).2.status ≠ .reclaimedPart) ∨
    Pressed c pressure target out ∧
    ∃ b mid d reason, Retouches c b ∧ b.entries = c.entries ∧ Releases ResidualAllowed b mid ∧
      pressureResidualStep target reason mid = none ∧ Releases BaseAllowed mid d ∧
      (pressure = .warn → d = mid) ∧
      (pressure = .critical → pressureBaseStep target d = none ∧
        (d.stats.payloadBytes > target → chooseResidual d = none)) ∧
      ecacheApplyPressure c pressure target out = (d, {
        status := if d.stats.payloadBytes ≤ target then .ok else .reclaimedPart
        reclaimed := c.stats.payloadBytes - d.stats.payloadBytes }) := by
  unfold ecacheApplyPressure
  split
  · rename_i missing
    refine .inl ⟨fun pressed => ?_, rfl, rfl, by simp⟩
    simp [cacheValid, inv.magic, pressed.2.1] at missing
  rename_i given
  split
  · rename_i above
    refine .inl ⟨fun pressed => ?_, rfl, rfl, by simp⟩
    have within := UInt64.le_iff_toNat_le.mp pressed.2.2
    have excess := UInt64.lt_iff_toNat_lt.mp above
    omega
  rename_i within
  split
  · rename_i unknown
    exact .inl ⟨fun pressed => pressed.1.elim unknown.2.1 unknown.2.2, rfl, rfl, by simp⟩
  rename_i known
  split
  · rename_i normal
    subst normal
    exact .inl ⟨fun pressed => pressed.1.elim (by simp) (by simp), rfl, rfl, by simp⟩
  rename_i level
  have pressed : Pressed c pressure target out := by
    refine ⟨?_, ?_, ?_⟩
    · by_contra other
      push Not at other
      exact known ⟨level, other.1, other.2⟩
    · simp only [Bool.or_eq_true, Bool.not_eq_true', not_or, Bool.not_eq_false] at given
      exact given.2
    · rw [gt_iff_lt, UInt64.lt_iff_toNat_lt] at within
      rw [UInt64.le_iff_toNat_le]
      omega
  refine .inr ⟨pressed, ?_⟩
  dsimp only
  have touched := count_pressure_retouches c pressure
  have same : (countPressure c pressure).entries = c.entries := by
    unfold countPressure
    split <;> rfl
  have live := retouches_inv inv touched
  generalize (if pressure = .warn then EcacheReleaseReason.pressureWarn else .pressureCritical) = reason
  obtain ⟨residuals, stopped⟩ := pressure_residuals_spec live target reason
  generalize pressureResiduals (countPressure c pressure) target reason = mid at residuals stopped
  have midInv := releases_inv live residuals
  have cleared : mid.stats.payloadBytes > target → chooseResidual mid = none := by
    intro above
    simpa [pressureResidualStep, above] using stopped
  obtain ⟨bases, done, gone⟩ := pressure_bases_spec midInv target cleared
  have within : ∀ {d}, Releases BaseAllowed mid d →
      (c.wrapped || decide (c.stats.payloadBytes < d.stats.payloadBytes)) = d.wrapped := by
    intro d run
    have less := releases_payload live residuals
    have lesser := releases_payload midInv run
    rw [retouches_payload touched] at less
    rw [inv.exact, (releases_inv midInv run).exact, (u64_not_lt _ _).mpr (lesser.trans less)]
    rfl
  have keptWrapped : ∀ {d}, Releases BaseAllowed mid d →
      ({ d with wrapped := d.wrapped || decide (c.stats.payloadBytes < d.stats.payloadBytes) } : ExpertCache) = d := by
    intro d run
    have same := within run
    rw [inv.exact, Bool.false_or] at same
    rw [same, Bool.or_self]
  by_cases critical : pressure = .critical
  · subst critical
    refine ⟨_, mid, pressureBases mid target, reason, touched, same, residuals, stopped, bases,
      fun warn => absurd warn (by decide), fun _ => ⟨done, gone⟩, ?_⟩
    simp only [if_true, keptWrapped bases]
  · refine ⟨_, mid, mid, reason, touched, same, residuals, stopped, .refl, fun _ => rfl, fun other => absurd other critical, ?_⟩
    simp only [if_neg critical, keptWrapped .refl]

theorem destroy_slot_spec {c : ExpertCache} (inv : Inv c) (i : Nat) (inside : i < c.config.maxEntries.toNat)
    (unpinned : (c.entries i).occupied → (c.entries i).pinCount = 0) :
    Releases Unpinned c (destroySlot c i) ∧ ((destroySlot c i).entries i).occupied = false ∧
      ∀ j, j ≠ i → (destroySlot c i).entries j = c.entries j := by
  by_cases occupied : (c.entries i).occupied
  · obtain ⟨d, destroyed, run, entries⟩ := release_entry inv i inside occupied (unpinned occupied) .destroy
    have step : destroySlot c i = d := by
      unfold destroySlot
      simpa [occupied] using destroyed
    rw [step, entries]
    exact ⟨run, by rw [write_same], fun j other => write_other _ _ _ _ other⟩
  · have step : destroySlot c i = c := by simp [destroySlot, occupied]
    rw [step]
    exact ⟨.refl, by simpa using occupied, fun _ _ => rfl⟩

theorem destroy_prefix_spec {c : ExpertCache} (inv : Inv c)
    (unpinned : ∀ i < c.config.maxEntries.toNat, (c.entries i).occupied → (c.entries i).pinCount = 0)
    (upto : Nat) (bound : upto ≤ c.config.maxEntries.toNat) : Releases Unpinned c ((List.range upto).foldl destroySlot c) ∧
      (∀ i < upto, (((List.range upto).foldl destroySlot c).entries i).occupied = false) ∧
      ∀ i, upto ≤ i → ((List.range upto).foldl destroySlot c).entries i = c.entries i := by
  induction upto with
  | zero => exact ⟨.refl, fun i none => absurd none (Nat.not_lt_zero i), fun _ _ => rfl⟩
  | succ upto ih =>
    obtain ⟨run, emptied, rest⟩ := ih (by omega)
    rw [List.range_succ, List.foldl_append, List.foldl_cons, List.foldl_nil]
    generalize (List.range upto).foldl destroySlot c = d at run emptied rest
    have here := rest upto (Nat.le_refl _)
    obtain ⟨step, gone, others⟩ := destroy_slot_spec (releases_inv inv run) upto
      (by rw [(releases_config inv run).1]; omega)
      (by rw [here]; exact unpinned upto (by omega))
    refine ⟨releases_trans run step, ?_, ?_⟩
    · intro i before
      by_cases last : i = upto
      · rw [last]
        exact gone
      · rw [others i last]
        exact emptied i (by omega)
    · intro i after
      rw [others i (by omega)]
      exact rest i (by omega)

theorem destroy_cases {c : ExpertCache} (inv : Inv c) :
    (ecacheDestroy c = (c, .errPolicy) ∧
      ∃ i < c.config.maxEntries.toNat, (c.entries i).occupied ∧ (c.entries i).pinCount ≠ 0) ∨
    ∃ d, ecacheDestroy c = ({ d with magic := 0 }, .ok) ∧ Releases Unpinned c d ∧
      ∀ i < c.config.maxEntries.toNat, (d.entries i).occupied = false := by
  unfold ecacheDestroy
  rw [if_neg inv.given]
  by_cases pinned : ((List.range c.slotCount).any fun i => (c.entries i).occupied && (c.entries i).pinCount != 0) = true
  · rw [if_pos pinned]
    obtain ⟨i, member, held⟩ := List.any_eq_true.mp pinned
    simp only [Bool.and_eq_true, bne_iff_ne] at held
    exact .inl ⟨rfl, i, List.mem_range.mp member, held⟩
  · rw [if_neg pinned]
    have unpinned : ∀ i < c.config.maxEntries.toNat, (c.entries i).occupied → (c.entries i).pinCount = 0 := by
      intro i inside occupied
      by_contra held
      exact pinned (List.any_eq_true.mpr ⟨i, List.mem_range.mpr inside, by simp [occupied, held]⟩)
    obtain ⟨run, emptied, _⟩ := destroy_prefix_spec inv unpinned c.config.maxEntries.toNat (Nat.le_refl _)
    exact .inr ⟨_, rfl, run, emptied⟩

end SamosaChat.Ecache
