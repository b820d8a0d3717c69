import SamosaChat.Ecache.Validate

set_option autoImplicit false

namespace SamosaChat.Ecache

open Slots Words Iterate

-- The bucket count is a power of two below 2^32 all along the doubling loop.
def DoublingOk (d : Doubling) : Prop := ∃ k ≤ 31, d.buckets.toNat = 2 ^ k

def doublingWork (d : Doubling) : Nat :=
  (if d.overflow then 0 else 1) + (31 - Nat.log2 d.buckets.toNat)

theorem double_step_spec (wanted : UInt64) (d e : Doubling) (good : DoublingOk d)
    (step : doubleStep wanted d = some e) : DoublingOk e ∧ doublingWork e < doublingWork d := by
  obtain ⟨k, small, power⟩ := good
  unfold doubleStep at step
  split at step
  · cases step
  · rename_i running
    split at step
    · split at step
      · cases step
        refine ⟨⟨k, small, power⟩, ?_⟩
        simp [doublingWork, running]
      · rename_i inside
        cases step
        have limit : (UInt64.ofNat ((2 ^ 32 - 1) / 2)).toNat = 2 ^ 31 - 1 := by decide
        rw [gt_iff_lt, UInt64.lt_iff_toNat_lt, limit, power] at inside
        have below : 2 ^ k < 2 ^ 31 := by omega
        have less : k < 31 := (Nat.pow_lt_pow_iff_right (by omega)).mp below
        have doubled : (d.buckets <<< 1).toNat = 2 ^ (k + 1) := by
          rw [UInt64.toNat_shiftLeft, power, Nat.shiftLeft_eq]
          have one : (1 : UInt64).toNat % 64 = 1 := rfl
          rw [one, pow_one, ← pow_succ]
          exact Nat.mod_eq_of_lt (Nat.pow_lt_pow_right (by omega) (by omega))
        refine ⟨⟨k + 1, less, doubled⟩, ?_⟩
        simp only [doublingWork, running, doubled, power, Nat.log2_two_pow]
        omega
    · cases step

theorem validate_config_sizes {config : EcacheConfig} {bucketCount : UInt32} (accepted : validateConfig config = .ok bucketCount) :
    config.payloadAlignment ≠ 0 ∧ SizesOk config.maxEntries.toNat bucketCount := by
  unfold validateConfig at accepted
  split at accepted
  · cases accepted
  rename_i positive
  push Not at positive
  split at accepted
  · cases accepted
  split at accepted
  · cases accepted
  dsimp only at accepted
  have start : DoublingOk { buckets := 1, overflow := false } := ⟨0, by omega, rfl⟩
  have good := iterate_invariant (n := 64)
    (fun s t good step => (double_step_spec (config.maxEntries.toUInt64 * 2) s t good step).1) start
  have stopped := iterate_stopped (n := 64) doublingWork
    (fun s t good step => (double_step_spec (config.maxEntries.toUInt64 * 2) s t good step).1)
    (fun s t good step => (double_step_spec (config.maxEntries.toUInt64 * 2) s t good step).2) start (by decide)
  generalize iterate (doubleStep (config.maxEntries.toUInt64 * 2)) 64 { buckets := 1, overflow := false } = last
    at accepted good stopped
  split at accepted
  · cases accepted
  rename_i clean
  split at accepted
  · cases accepted
  cases accepted
  obtain ⟨k, small, power⟩ := good
  have limit : 2 ^ k ≤ 2 ^ 31 := Nat.pow_le_pow_right (by omega) small
  have narrowed : last.buckets.toUInt32.toNat = 2 ^ k := by
    rw [UInt64.toNat_toUInt32, power]
    exact Nat.mod_eq_of_lt (by omega)
  have enough : ¬ last.buckets < config.maxEntries.toUInt64 * 2 := by
    intro short
    unfold doubleStep at stopped
    rw [if_neg clean, if_pos short] at stopped
    split at stopped <;> cases stopped
  have size := config.maxEntries.toNat_lt
  have two : (2 : UInt64).toNat = 2 := rfl
  rw [UInt64.lt_iff_toNat_lt, UInt64.toNat_mul, UInt32.toNat_toUInt64, two, Nat.mod_eq_of_lt (by omega), power] at enough
  exact ⟨positive.1, ⟨k, small, narrowed⟩, by omega, (u32_ne_zero _).mp positive.2.1⟩

variable {c : ExpertCache}

theorem init_inv {abi : Abi} {args : InitArgs} (accepted : ecacheInit abi args = .ok c) :
    Inv c ∧ c.released = [] ∧ ∀ i, (c.entries i).occupied = false := by
  unfold ecacheInit at accepted
  split at accepted
  · cases accepted
  split at accepted
  · cases accepted
  rename_i given
  split at accepted
  · cases accepted
  cases sized : validateConfig args.config with
  | error status => simp [sized] at accepted
  | ok bucketCount =>
    rw [sized] at accepted
    dsimp only at accepted
    cases measured : ecacheWorkspaceSize abi args.config with
    | error status => simp [measured] at accepted
    | ok needed =>
      rw [measured] at accepted
      dsimp only at accepted
      split at accepted
      · cases accepted
      cases accepted
      obtain ⟨aligned, sizes⟩ := validate_config_sizes sized
      simp only [Bool.or_eq_true, decide_eq_true_eq, Bool.not_eq_true', not_or, Bool.not_eq_false] at given
      have none : ∀ measure : CacheEntry → Nat, measure {} = 0 →
          total args.config.maxEntries.toNat (fun _ => ({} : CacheEntry)) measure = 0 :=
        fun measure idle => (total_zero_iff _ _ _).mpr (fun _ _ => idle)
      refine ⟨⟨rfl, given.2, aligned, sizes, rfl, rfl, ?_, ?_, ?_, fun _ _ => rfl, rfl⟩, rfl, fun _ => rfl⟩
      · exact ⟨fun _ _ live => absurd live (by simp), fun _ _ _ _ live => absurd live (by simp),
          fun _ _ _ _ _ carries => absurd carries.1 (by simp)⟩
      · refine ⟨fun _ _ _ here => absurd here (by simp), fun _ _ _ live => absurd live (by simp), ?_, ?_⟩
        · exact SamosaChat.Probing.vacant_well_formed (fun _ _ => rfl)
        · symm
          exact (total_zero_iff _ _ _).mpr (fun _ _ => rfl)
      · refine ⟨(none _ rfl).symm, (none _ rfl).symm, rfl, (none _ rfl).symm, rfl, fun l bound => ?_, Nat.le_refl _, Nat.zero_le _⟩
        have idle : ∀ measure : CacheEntry → Nat, measure {} = 0 → onLayer l measure {} = 0 := by
          intro measure zero
          have below := on_layer_le l measure {}
          omega
        have blank : ∀ {layer : LayerState}, (∃ floor, layer = { floor := floor }) →
            LayerUsage args.config.maxEntries.toNat (fun _ => {}) l layer := by
          rintro layer ⟨floor, rfl⟩
          exact ⟨(none _ (idle _ rfl)).symm, (none _ (idle _ rfl)).symm, (none _ (idle _ rfl)).symm, (none _ (idle _ rfl)).symm⟩
        apply blank
        cases args.layerFloors with
        | none => exact ⟨{}, rfl⟩
        | some floors => exact ⟨floors l, by simp [bound]⟩

theorem insert_inv (inv : Inv c) (key : EcacheKey) (request : Admission) : Inv (ecacheInsertBase c key request).1 := by
  rcases insert_outcome inv key request with ⟨_, _, ⟨touched, _⟩⟩ | ⟨b, d, slot, bucket, charge, ⟨touched, _, _⟩, _, _, run, ok, _, eq⟩
  · exact retouches_inv inv touched
  · rw [eq]
    exact admit_base_inv (releases_inv (retouches_inv inv touched) run) ok

theorem promote_inv (inv : Inv c) (key : EcacheKey) (request : Admission) : Inv (ecachePromote c key request).1 := by
  rcases promote_outcome inv key request with ⟨_, ⟨touched, _⟩⟩ | ⟨b, d, slot, charge, ⟨touched, _, _⟩, run, ok, _, eq⟩
  · exact retouches_inv inv touched
  · rw [eq]
    exact admit_residual_inv (releases_inv (retouches_inv inv touched) run) ok

theorem remove_inv (inv : Inv c) (key : EcacheKey) : Inv (ecacheRemove c key).1 := by
  rcases remove_cases inv key with ⟨_, same⟩ | ⟨run, _⟩
  · rw [same]
    exact inv
  · exact releases_inv inv run

theorem pressure_inv (inv : Inv c) (pressure : EcachePressure) (target : UInt64) (out : Bool) :
    Inv (ecacheApplyPressure c pressure target out).1 := by
  rcases pressure_cases inv pressure target out with
    ⟨_, same, _⟩ | ⟨_, b, mid, d, reason, touched, _, residuals, _, bases, _, _, eq⟩
  · rw [same]
    exact inv
  · rw [eq]
    exact releases_inv (releases_inv (retouches_inv inv touched) residuals) bases

theorem call_inv (inv : Inv c) (request : ApiCall) : Inv (call c request).1 := by
  cases request with
  | get key requirement out => exact retouches_inv inv (get_retouches c key requirement out)
  | peek key out =>
    rw [call, peek_same]
    exact inv
  | pin key => exact retouches_inv inv (repins_retouches (pin_repins c key))
  | unpin key => exact retouches_inv inv (repins_retouches (unpin_repins c key))
  | insertBase key request => exact insert_inv inv key request
  | promote key request => exact promote_inv inv key request
  | remove key => exact remove_inv inv key
  | applyPressure pressure target out => exact pressure_inv inv pressure target out

theorem run_inv (inv : Inv c) (calls : List ApiCall) : Inv (run c calls) := by
  induction calls generalizing c with
  | nil => exact inv
  | cons request rest ih => exact ih (call_inv inv request)

theorem reachable_inv {abi : Abi} {args : InitArgs} (accepted : ecacheInit abi args = .ok c)
    (calls : List ApiCall) : Inv (run c calls) :=
  run_inv (init_inv accepted).1 calls

-- The representation invariant of every reachable cache, and what it says about the
-- checks of ecache_validate, the plan marks and the ghost record of wrapped subtractions.
theorem cache_stays_valid (abi : Abi) (args : InitArgs) (c : ExpertCache)
    (accepted : ecacheInit abi args = .ok c) (calls : List ApiCall) :
    Inv (run c calls) ∧ ecacheValidate (run c calls) = .ok ∧
      (run c calls).stats.payloadBytes ≤ (run c calls).stats.peakPayloadBytes ∧
      (run c calls).stats.peakPayloadBytes ≤ (run c calls).config.budgetBytes ∧
      (∀ i < (run c calls).config.maxEntries.toNat, ((run c calls).entries i).plannedBaseEvict = false) ∧
      (run c calls).wrapped = false := by
  have inv := reachable_inv accepted calls
  exact ⟨inv, validate_ok inv, UInt64.le_iff_toNat_le.mpr inv.usage.peak,
    UInt64.le_iff_toNat_le.mpr inv.usage.peakBudget, inv.unplanned, inv.exact⟩

-- The record sizes of an LP64 build.
def lp64 : Abi where
  sizeofCache := 296
  sizeofEntry := 104
  sizeofLayer := 56
  alignofEntry := 8
  alignofLayer := 8
  alignofMax := 16

def smallConfig : EcacheConfig where
  budgetBytes := 64
  payloadAlignment := 16
  maxEntries := 2
  layerCount := 1
  policy := .lru

def smallArgs : InitArgs where
  workspace := 4096
  workspaceSize := 1024
  config := smallConfig
  layerFloors := none
  hasRelease := true
  cacheOut := true

def smallCache : ExpertCache where
  magic := ecacheMagic
  config := smallConfig
  hasRelease := true
  metadataBytes := 576
  bucketCount := 4
  tombstones := 0
  entryCount := 0
  clock := 0
  entries := fun _ => {}
  buckets := fun _ => .empty
  layers := fun _ => {}
  stats := { budgetBytes := 64, metadataBytes := 576 }
  released := []
  wrapped := false

theorem small_init : ecacheInit lp64 smallArgs = .ok smallCache := by rfl

def smallKey : EcacheKey := ⟨0, 7⟩

def demandOf (payload : Handle) : Admission where
  payload := payload
  logicalBytes := 16
  sourceBytesRead := 16
  admission := .demand

theorem cache_stays_valid_small :
    ecacheValidate (run smallCache [.insertBase smallKey (demandOf 1), .promote smallKey (demandOf 2)]) = .ok :=
  (cache_stays_valid lp64 smallArgs smallCache small_init _).2.1

end SamosaChat.Ecache
