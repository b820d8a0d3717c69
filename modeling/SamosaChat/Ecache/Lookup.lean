import SamosaChat.Ecache.Resident

set_option autoImplicit false

namespace SamosaChat.Ecache

open Slots Probing

def lookup (c : ExpertCache) (key : EcacheKey) : Option Nat :=
  match hashFind c key with
  | .found _ slot => some slot
  | .missing _ => none

theorem lookup_iff {tombstones : UInt32} (c : ExpertCache) (key : EcacheKey) (s : Nat) (sizes : SizesOk c.slotCount c.bucketCount)
    (index : IndexOk c.slotCount c.bucketCount c.entries c.buckets tombstones) :
    lookup c key = some s ↔ s < c.slotCount ∧ (c.entries s).occupied ∧ (c.entries s).key = key := by
  unfold lookup
  constructor
  · intro found
    cases outcome : hashFind c key with
    | missing bucket => simp [outcome] at found
    | found b slot =>
      simp only [outcome, Option.some.injEq] at found
      subst found
      exact hash_find_found c key b slot sizes index outcome
  · rintro ⟨inside, occupied, rfl⟩
    obtain ⟨b, _, _, found⟩ := hash_find_occupied c s sizes index inside occupied
    simp [found]

theorem lookup_same {a b : UInt32} {c d : ExpertCache} (key : EcacheKey)
    (sizesC : SizesOk c.slotCount c.bucketCount) (sizesD : SizesOk d.slotCount d.bucketCount)
    (indexC : IndexOk c.slotCount c.bucketCount c.entries c.buckets a)
    (indexD : IndexOk d.slotCount d.bucketCount d.entries d.buckets b)
    (slots : d.slotCount = c.slotCount) (entries : d.entries = c.entries) : lookup d key = lookup c key := by
  apply Option.ext
  intro s
  rw [lookup_iff d key s sizesD indexD, lookup_iff c key s sizesC indexC, slots, entries]

theorem rebuild_lookup {c : ExpertCache} (inv : Inv c) (key : EcacheKey) : lookup (hashRebuild c) key = lookup c key := by
  obtain ⟨buckets, rebuilt, index⟩ := hash_rebuild_spec c inv.sizes inv.entries.keys
  rw [rebuilt]
  exact lookup_same key inv.sizes inv.sizes inv.index index rfl rfl

theorem forget_lookup {c : ExpertCache} (inv : Inv c) (s : Nat) (inside : s < c.config.maxEntries.toNat)
    (occupied : (c.entries s).occupied) (key : EcacheKey) :
    lookup (forgetEntry c s) key = if key = (c.entries s).key then none else lookup c key := by
  obtain ⟨buckets, tombstones, forgotten, index⟩ := forget_entry_spec c s inv.sizes inv.index
    (entries_clear inv.entries s).keys inside occupied
  rw [forgotten]
  apply Option.ext
  intro t
  rw [lookup_iff { c with entries := write c.entries s {}, buckets := buckets, tombstones := tombstones } key t
    inv.sizes index]
  dsimp only [ExpertCache.slotCount]
  by_cases here : key = (c.entries s).key
  · rw [if_pos here]
    refine ⟨fun ⟨within, live, same⟩ => ?_, fun absurd_ => (by cases absurd_)⟩
    by_cases at_ : t = s
    · rw [at_, write_same] at live
      cases live
    · rw [write_other _ _ _ _ at_] at live same
      exact absurd (inv.entries.keys t within s inside live occupied (same.trans here)) at_
  · rw [if_neg here, lookup_iff c key t inv.sizes inv.index]
    dsimp only [ExpertCache.slotCount]
    by_cases at_ : t = s
    · subst at_
      rw [write_same]
      exact ⟨fun ⟨_, live, _⟩ => absurd live (by simp), fun ⟨_, _, same⟩ => absurd same.symm here⟩
    · rw [write_other _ _ _ _ at_]

theorem tombstones_counted (buckets : Nat → Bucket) (size : Nat) :
    total size buckets tombstoneOf = (List.range size).countP fun b => buckets b == .tombstone := by
  induction size with
  | zero => rfl
  | succ size ih =>
    rw [total_succ, List.range_succ, List.countP_append, ih]
    cases here : buckets size <;> simp [tombstoneOf, here]

def Shows (view : Option EcacheView) (key : EcacheKey) (holding : Holding) : Prop :=
  ∃ v, view = some v ∧ v.key = key ∧ v.basePayload = holding.base ∧
    v.residualPayload = holding.residual.getD 0 ∧ (v.state = .baseAndResidual ↔ holding.residual.isSome)

theorem entry_shows {config : EcacheConfig} {old new : CacheEntry} (valid : EntryValid config old)
    (touched : Retouched old new) : Shows (some (fillView new)) old.key (holdingOf old) := by
  refine ⟨fillView new, rfl, touched.key, touched.basePayload, ?_, ?_⟩
  · simp only [fillView, touched.residualPayload, holdingOf]
    by_cases residual : old.hasResidual
    · simp [residual]
    · simp [residual, (valid.bare residual).payload]
  · simp only [fillView, touched.hasResidual, holdingOf]
    by_cases residual : old.hasResidual <;> simp [residual]

theorem retouches_entry_at {c d : ExpertCache} (touched : Retouches c d) (i : Nat) : Retouched (c.entries i) (d.entries i) := by
  obtain ⟨entries, clock, stats, layers, rfl, same, _, _⟩ := touched
  exact same i

theorem find_absent {c : ExpertCache} (inv : Inv c) {map : Residents} (stands : Stands c map) {key : EcacheKey}
    (absent : map key = none) : ∃ b < c.bucketCount.toNat, hashFind c key = .missing (some b) := by
  obtain ⟨b, bound, missing, _⟩ := hash_find_absent c key inv.sizes inv.index (by
    intro s _ inside occupied same
    have held := stands_holding stands s inside occupied
    rw [same, absent] at held
    cases held)
  exact ⟨b, bound, missing⟩

theorem find_present {c : ExpertCache} (inv : Inv c) {map : Residents} (stands : Stands c map) {key : EcacheKey}
    {holding : Holding} (present : map key = some holding) :
    ∃ b s, hashFind c key = .found b s ∧ EntryValid c.config (c.entries s) ∧ (c.entries s).key = key ∧
      holdingOf (c.entries s) = holding := by
  obtain ⟨s, inside, held⟩ := (stands key holding).mp present
  obtain ⟨occupied, rfl, same⟩ := content_some.mp held
  obtain ⟨b, _, _, found⟩ := hash_find_occupied c s inv.sizes inv.index inside occupied
  exact ⟨b, s, found, inv.entries.valid s inside occupied, rfl, same⟩

def GetAnswers (reply : Reply) (key : EcacheKey) (requirement : EcacheRequirement) : Option Holding → Prop
  | none => reply.status = .ok ∧ reply.result = some .baseMiss ∧ reply.view = none
  | some holding => reply.status = .ok ∧ Shows reply.view key holding ∧
      reply.result =
        some (if requirement = .requireFull ∧ holding.residual = none then .residualMiss else .hit)

def PeekAnswers (reply : Reply) (key : EcacheKey) : Option Holding → Prop
  | none => reply.status = .errNotFound ∧ reply.view = none
  | some holding => reply.status = .ok ∧ Shows reply.view key holding

-- A key pinned 2^32 - 1 times is found and refused.
def PinAnswers (reply : Reply) (key : EcacheKey) : Option Holding → Prop
  | none => reply.status = .errNotFound ∧ reply.view = none
  | some holding => reply.status = .ok ∧ Shows reply.view key holding ∨ reply.status = .errOverflow

section Answers

variable {c : ExpertCache} {map : Residents} {key : EcacheKey}

theorem layer_accepted (layer : key.layer.toNat < c.config.layerCount.toNat) : ¬ key.layer ≥ c.config.layerCount := by
  rw [ge_iff_le, UInt32.le_iff_toNat_le]
  omega

theorem get_answers (inv : Inv c) (stands : Stands c map) (layer : key.layer.toNat < c.config.layerCount.toNat)
    (requirement : EcacheRequirement) (known : requirement = .requireBase ∨ requirement = .requireFull) :
    GetAnswers (ecacheGet c key requirement true).2 key requirement (map key) := by
  have accepted : ¬ (requirement ≠ .requireBase ∧ requirement ≠ .requireFull) := by
    rcases known with rfl | rfl <;> simp
  unfold ecacheGet
  rw [if_neg (by simpa using inv.given), if_neg (layer_accepted layer), if_neg accepted]
  cases here : map key with
  | none =>
    obtain ⟨b, _, missing⟩ := find_absent inv stands here
    rw [missing]
    exact ⟨rfl, rfl, rfl⟩
  | some holding =>
    obtain ⟨b, s, found, entry, rfl, rfl⟩ := find_present inv stands here
    have touched := retouches_entry_at (touch_entry_retouches c s) s
    have same := touched.hasResidual
    rw [found]
    dsimp only
    by_cases full : requirement = .requireFull
    · rw [if_pos full]
      by_cases residual : (c.entries s).hasResidual
      · rw [residual] at same
        rw [if_neg (by simp [same])]
        exact ⟨rfl, entry_shows entry (retouched_trans touched
          ⟨rfl, rfl, rfl, rfl, rfl, rfl, rfl, rfl, rfl, rfl, id, id, id, fun _ => rfl, id⟩),
          by simp [holdingOf, residual]⟩
      · rw [Bool.not_eq_true] at residual
        rw [residual] at same
        rw [if_pos (by simp [same])]
        exact ⟨rfl, entry_shows entry touched, by simp [full, holdingOf, residual]⟩
    · rw [if_neg full]
      exact ⟨rfl, entry_shows entry touched, by simp [full]⟩

theorem peek_answers (inv : Inv c) (stands : Stands c map) (layer : key.layer.toNat < c.config.layerCount.toNat) :
    PeekAnswers (ecachePeek c key true).2 key (map key) := by
  unfold ecachePeek
  rw [if_neg (by simpa using inv.given), if_neg (layer_accepted layer)]
  cases here : map key with
  | none =>
    obtain ⟨b, _, missing⟩ := find_absent inv stands here
    rw [missing]
    exact ⟨rfl, rfl⟩
  | some holding =>
    obtain ⟨b, s, found, entry, rfl, rfl⟩ := find_present inv stands here
    rw [found]
    exact ⟨rfl, entry_shows entry (retouched_refl _)⟩

theorem pin_answers (inv : Inv c) (stands : Stands c map) (layer : key.layer.toNat < c.config.layerCount.toNat) :
    PinAnswers (ecachePin c key).2 key (map key) := by
  unfold ecachePin
  rw [if_neg inv.given, if_neg (layer_accepted layer)]
  cases here : map key with
  | none =>
    obtain ⟨b, _, missing⟩ := find_absent inv stands here
    rw [missing]
    exact ⟨rfl, rfl⟩
  | some holding =>
    obtain ⟨b, s, found, entry, rfl, rfl⟩ := find_present inv stands here
    rw [found]
    dsimp only
    split
    · exact .inr rfl
    · exact .inl ⟨rfl, entry_shows entry
        ⟨rfl, rfl, rfl, rfl, rfl, rfl, rfl, rfl, rfl, rfl, id, id, id, id, id⟩⟩

end Answers

end SamosaChat.Ecache
