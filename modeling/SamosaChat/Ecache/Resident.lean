import SamosaChat.Ecache.Floors

set_option autoImplicit false

namespace SamosaChat.Ecache

open Slots Probing

structure Holding where
  base : Handle
  residual : Option Handle
deriving DecidableEq

abbrev Residents := EcacheKey → Option Holding

inductive Change where
  | inserted (key : EcacheKey) (payload : Handle)
  | promoted (key : EcacheKey) (payload : Handle)
  | released (key : EcacheKey) (plane : EcachePlane)

def applyChange (map : Residents) : Change → Residents
  | .inserted key payload => Function.update map key (some ⟨payload, none⟩)
  | .promoted key payload => Function.update map key ((map key).map fun h => { h with residual := some payload })
  | .released key .residual => Function.update map key ((map key).map fun h => { h with residual := none })
  | .released key .base => Function.update map key none

def releasedChange (event : EcacheReleaseEvent) : Change := .released event.key event.plane

def admittedChange (c : ExpertCache) : ApiCall → List Change
  | .insertBase key admission =>
    if (ecacheInsertBase c key admission).2.status = .ok then [.inserted key admission.payload] else []
  | .promote key admission =>
    if (ecachePromote c key admission).2.status = .ok then [.promoted key admission.payload] else []
  | _ => []

def changesOf (c : ExpertCache) (request : ApiCall) : List Change :=
  ((call c request).1.released.drop c.released.length).map releasedChange ++ admittedChange c request

def changes (c : ExpertCache) : List ApiCall → List Change
  | [] => []
  | request :: rest => changesOf c request ++ changes (call c request).1 rest

def residents (c : ExpertCache) (calls : List ApiCall) : Residents :=
  (changes c calls).foldl applyChange fun _ => none

def holdingOf (entry : CacheEntry) : Holding where
  base := entry.basePayload
  residual := if entry.hasResidual then some entry.residualPayload else none

def contentOf (entry : CacheEntry) : Option (EcacheKey × Holding) :=
  if entry.occupied then some (entry.key, holdingOf entry) else none

def Stands (c : ExpertCache) (map : Residents) : Prop :=
  Represents c.config.maxEntries.toNat c.entries contentOf map

variable {d : ExpertCache} {key : EcacheKey}

theorem content_some {entry : CacheEntry} {holding : Holding} :
    contentOf entry = some (key, holding) ↔ entry.occupied ∧ entry.key = key ∧ holdingOf entry = holding := by
  unfold contentOf
  split
  · rename_i occupied
    simp [occupied]
  · rename_i idle
    simp [idle]

variable {c : ExpertCache} {map : Residents}

theorem stands_holding (stands : Stands c map) (s : Nat)
    (inside : s < c.config.maxEntries.toNat) (occupied : (c.entries s).occupied) :
    map (c.entries s).key = some (holdingOf (c.entries s)) :=
  (stands _ _).mpr ⟨s, inside, content_some.mpr ⟨occupied, rfl, rfl⟩⟩

theorem content_alone (inv : Inv c) (s : Nat) (inside : s < c.config.maxEntries.toNat)
    (occupied : (c.entries s).occupied) (i : Nat) (within : i < c.config.maxEntries.toNat) (other : i ≠ s)
    (holding : Holding) : contentOf (c.entries i) ≠ some ((c.entries s).key, holding) := by
  intro held
  obtain ⟨live, same, _⟩ := content_some.mp held
  exact other (inv.entries.keys i within s inside live occupied same)

theorem retouched_content {old new : CacheEntry} (touched : Retouched old new) : contentOf new = contentOf old := by
  simp only [contentOf, holdingOf, touched.occupied, touched.key, touched.basePayload, touched.hasResidual, touched.residualPayload]

theorem retouches_stands (stands : Stands c map) (touched : Retouches c d) : Stands d map := by
  obtain ⟨entries, clock, stats, layers, rfl, same, _, _⟩ := touched
  exact represents_congr stands (fun i _ => retouched_content (same i))

theorem releases_stand {Allowed : ExpertCache → Nat → EcachePlane → Prop}
    (inv : Inv c) (stands : Stands c map) (run : Releases Allowed c d) :
    ∃ events, d.released = c.released ++ events ∧ Stands d ((events.map releasedChange).foldl applyChange map) := by
  induction run with
  | refl => exact ⟨[], by simp, stands⟩
  | @residual d s reason countDemotion before _ inside occupied residual ih =>
    obtain ⟨events, logged, so⟩ := ih
    have live := releases_inv inv before
    have frame := (release_residual_frame live s inside occupied residual reason countDemotion).1
    refine ⟨events ++ [residualEvent (d.entries s) reason], by rw [frame.released, logged, List.append_assoc], ?_⟩
    rw [List.map_append, List.foldl_append]
    generalize (events.map releasedChange).foldl applyChange map = reached at so
    have here := stands_holding so s inside occupied
    simp only [List.map_cons, List.map_nil, List.foldl_cons, List.foldl_nil, releasedChange, residualEvent,
      applyChange, here, Option.map_some]
    unfold Stands
    rw [frame.config, frame.entries]
    refine represents_write d.entries so s inside _ _ _ (fun k v held => (content_some.mp held).2.1.symm)
      (fun i within other => content_alone live s inside occupied i within other) ?_
    simp [contentOf, dropResidual, occupied, holdingOf]
  | @base d s reason countEviction before _ inside occupied bare ih =>
    obtain ⟨events, logged, so⟩ := ih
    have live := releases_inv inv before
    have frame := (release_bare_base_frame live s inside occupied reason countEviction).1
    refine ⟨events ++ [baseEvent (d.entries s) reason], by rw [frame.released, logged, List.append_assoc], ?_⟩
    rw [List.map_append, List.foldl_append]
    generalize (events.map releasedChange).foldl applyChange map = reached at so
    simp only [List.map_cons, List.map_nil, List.foldl_cons, List.foldl_nil, releasedChange, baseEvent, applyChange]
    unfold Stands
    rw [frame.config, frame.entries]
    refine represents_write d.entries so s inside _ _ _ (fun k v held => (content_some.mp held).2.1.symm)
      (fun i within other => content_alone live s inside occupied i within other) ?_
    simp [contentOf]

theorem admit_base_stands {slot bucket : Nat} {request : Admission} {charge : UInt64} (stands : Stands c map)
    (admissible : Admissible c slot bucket key request charge)
    (absent : ∀ i < c.config.maxEntries.toNat, (c.entries i).occupied → (c.entries i).key ≠ key) :
    Stands (admitBase c slot bucket key request charge) (applyChange map (.inserted key request.payload)) := by
  have ticks := (next_clock_spec c).1
  have ready := admissible_retouched admissible ticks
  have still := retouches_stands stands ticks
  have alone := retouches_absent ticks absent
  refine represents_write (nextClock c).1.entries still slot ready.inside key _ _ ?_ ?_ ?_
  · intro k v held
    have occupied := (content_some.mp held).1
    rw [ready.vacant] at occupied
    cases occupied
  · intro i within _ v held
    obtain ⟨occupied, same, _⟩ := content_some.mp held
    exact alone i within occupied same
  · simp [contentOf, newEntry, holdingOf]

theorem admit_residual_stands (inv : Inv c) {slot : Nat} {request : Admission} {charge : UInt64} (stands : Stands c map)
    (promotable : Promotable c slot key request charge) :
    Stands (admitResidual c slot key request charge) (applyChange map (.promoted key request.payload)) := by
  have here := stands_holding stands slot promotable.inside promotable.occupied
  rw [promotable.named] at here
  simp only [applyChange, here, Option.map_some]
  refine represents_write c.entries stands slot promotable.inside key _ _ ?_ ?_ ?_
  · intro k v held
    exact (content_some.mp held).2.1.symm.trans promotable.named
  · intro i within other v held
    exact content_alone inv slot promotable.inside promotable.occupied i within other v (promotable.named ▸ held)
  · simp [contentOf, withResidual, promotable.occupied, promotable.named, holdingOf]

theorem quiet_call {request : ApiCall}
    (stands : Stands c map) (touched : Retouches c (call c request).1) (none : admittedChange c request = []) :
    Stands (call c request).1 ((changesOf c request).foldl applyChange map) := by
  have log := retouches_released touched
  simp only [changesOf, log, List.drop_length, List.map_nil, none, List.append_nil, List.foldl_nil]
  exact retouches_stands stands touched

theorem releasing_call {request : ApiCall} (events : List EcacheReleaseEvent)
    (result : (call c request).1 = d) (logged : d.released = c.released ++ events)
    (so : Stands d ((admittedChange c request).foldl applyChange ((events.map releasedChange).foldl applyChange map))) :
    Stands (call c request).1 ((changesOf c request).foldl applyChange map) := by
  rw [changesOf, result, logged, List.drop_left, List.foldl_append]
  exact so

theorem call_stands (inv : Inv c) (stands : Stands c map) (request : ApiCall) :
    Stands (call c request).1 ((changesOf c request).foldl applyChange map) := by
  cases request with
  | get key requirement out => exact quiet_call stands (get_retouches c key requirement out) rfl
  | peek key out =>
    refine quiet_call stands ?_ rfl
    rw [call, peek_same]
    exact retouches_refl c
  | pin key => exact quiet_call stands (repins_retouches (pin_repins c key)) rfl
  | unpin key => exact quiet_call stands (repins_retouches (unpin_repins c key)) rfl
  | insertBase key admission =>
    rcases insert_outcome inv key admission with
      ⟨failed, _, ⟨touched, _⟩⟩ | ⟨b, d, slot, bucket, charge, ⟨touched, _, _⟩, _, _, run, ok, absent, eq⟩
    · exact quiet_call stands touched (by simp [admittedChange, failed])
    · have live := retouches_inv inv touched
      obtain ⟨events, logged, so⟩ := releases_stand live (retouches_stands stands touched) run
      rw [retouches_released touched] at logged
      refine releasing_call (d := admitBase d slot bucket key admission charge) events (by rw [call, eq]) ((retouches_released (next_clock_spec d).1).trans logged) ?_
      simp only [admittedChange, eq, if_true, List.foldl_cons, List.foldl_nil]
      exact admit_base_stands so ok (releases_absent live run (retouches_absent touched absent))
  | promote key admission =>
    rcases promote_outcome inv key admission with
      ⟨failed, ⟨touched, _⟩⟩ | ⟨b, d, slot, charge, ⟨touched, _, _⟩, run, ok, _, eq⟩
    · exact quiet_call stands touched (by simp [admittedChange, failed])
    · have live := retouches_inv inv touched
      obtain ⟨events, logged, so⟩ := releases_stand live (retouches_stands stands touched) run
      rw [retouches_released touched] at logged
      refine releasing_call (d := admitResidual d slot key admission charge) events (by rw [call, eq]) logged ?_
      simp only [admittedChange, eq, if_true, List.foldl_cons, List.foldl_nil]
      exact admit_residual_stands (releases_inv live run) so ok
  | remove key =>
    rcases remove_cases inv key with ⟨_, same⟩ | ⟨run, _⟩
    · refine quiet_call stands ?_ rfl
      rw [call, same]
      exact retouches_refl c
    · obtain ⟨events, logged, so⟩ := releases_stand inv stands run
      exact releasing_call events rfl logged so
  | applyPressure pressure target out =>
    rcases pressure_cases inv pressure target out with
      ⟨_, same, _⟩ | ⟨_, b, mid, d, reason, touched, _, residuals, _, bases, _, _, eq⟩
    · refine quiet_call stands ?_ rfl
      rw [call, same]
      exact retouches_refl c
    · have live := retouches_inv inv touched
      have whole : Releases Unpinned b d := releases_trans
        (releases_weaken live residuals (fun _ _ _ _ _ allowed => allowed.2))
        (releases_weaken (releases_inv live residuals) bases
          (fun _ _ _ _ _ allowed => (floor_allows_live allowed.2.1).2.1))
      obtain ⟨events, logged, so⟩ := releases_stand live (retouches_stands stands touched) whole
      rw [retouches_released touched] at logged
      exact releasing_call events (by rw [call, eq]) logged so

theorem run_stands (inv : Inv c) (stands : Stands c map) (calls : List ApiCall) :
    Stands (run c calls) ((changes c calls).foldl applyChange map) := by
  induction calls generalizing c map with
  | nil => exact stands
  | cons request rest ih =>
    rw [changes, List.foldl_append]
    exact ih (call_inv inv request) (call_stands inv stands request)

end SamosaChat.Ecache
