import SamosaChat.Ecache.Pins
import SamosaChat.Lib.Utf8

set_option autoImplicit false

namespace SamosaChat.Maple

open Utf8 Ecache

-- An open store. `contents` is what read_expert reads of its files: every record has the same length,
-- which both ways of opening a store check.
structure MapleExpertStore where
  firstMoeLayer : Nat
  numLayers : Nat
  numExperts : Nat
  expertLogicalBytes : UInt64
  contents : EcacheKey → Bytes
  layers : firstMoeLayer ≤ numLayers
  fewLayers : numLayers < 2 ^ 31
  sized : ∀ key, firstMoeLayer ≤ key.layer.toNat ∧ key.layer.toNat < numLayers ∧ key.expert.toNat < numExperts →
    (contents key).length = expertLogicalBytes.toNat

-- record_index throws for every other pair of ints.
def MapleExpertStore.HasRecord (store : MapleExpertStore) (key : EcacheKey) : Prop :=
  store.firstMoeLayer ≤ key.layer.toNat ∧ key.layer.toNat < store.numLayers ∧ key.expert.toNat < store.numExperts

instance (store : MapleExpertStore) (key : EcacheKey) : Decidable (store.HasRecord key) :=
  inferInstanceAs (Decidable (_ ∧ _ ∧ _))

def u64Max : UInt64 := UInt64.ofNat (2 ^ 64 - 1)

def checkedMul (a b : UInt64) (label : String) : Except String UInt64 :=
  if a ≠ 0 ∧ b > u64Max / a then .error ("integer overflow while sizing " ++ label) else .ok (a * b)

def checkedAdd (a b : UInt64) (label : String) : Except String UInt64 :=
  if b > u64Max - a then .error ("integer overflow while sizing " ++ label) else .ok (a + b)

def alignU64 (value alignment : UInt64) (label : String) : Except String UInt64 :=
  if alignment = 0 then .error "zero alignment while sizing Maple cache"
  else
    let rem := value % alignment
    if rem = 0 then .ok value else checkedAdd value (alignment - rem) label

def refuse (condition : Prop) [Decidable condition] (message : String) : Except String Unit :=
  if condition then .error message else .ok ()

structure MapleExpertCacheConfig where
  budgetBytes : UInt64
  payloadAlignment : UInt64
  maxEntries : UInt32
  minEntriesPerLayer : UInt32

-- What strtoull makes of the variable's text.
inductive CacheBudgetEnv
  | unset
  | invalid
  | megabytes (mb : UInt64)

def parseCacheBudgetEnv (env : CacheBudgetEnv) (fallback : UInt64) : Except String UInt64 :=
  match env with
  | .unset => .ok fallback
  | .invalid => .error "invalid SAMOSA_MAPLE_EXPERT_BUDGET_MB"
  | .megabytes mb =>
    if mb = 0 then .error "invalid SAMOSA_MAPLE_EXPERT_BUDGET_MB"
    else if mb > u64Max / 1048576 then .error "SAMOSA_MAPLE_EXPERT_BUDGET_MB overflows bytes"
    else .ok (mb * 1048576)

def kDefaultCacheEntriesPerLayer : UInt64 := 4

def kMaxCacheBudgetBytes : UInt64 := 8589934592

def maxCacheEntries (user : MapleExpertCacheConfig) (budgetEntries totalRecords : UInt64) : UInt64 :=
  let budgetEntries := min budgetEntries totalRecords
  let maxEntries := if user.maxEntries ≠ 0 then user.maxEntries.toUInt64 else budgetEntries
  min (min maxEntries budgetEntries) totalRecords

def cacheFloors (store : MapleExpertStore) (user : MapleExpertCacheConfig) : Nat → EcacheLayerFloor :=
  fun layer =>
    if user.minEntriesPerLayer ≠ 0 ∧ store.firstMoeLayer ≤ layer ∧ layer < store.numLayers then
      { minBaseEntries := user.minEntriesPerLayer }
    else {}

def cacheBudget (user : MapleExpertCacheConfig) (env : CacheBudgetEnv) (defaultEntries chargedExpertBytes : UInt64) :
    Except String UInt64 :=
  if user.budgetBytes = 0 then do
    let fallback ← checkedMul defaultEntries chargedExpertBytes "Maple default cache budget"
    parseCacheBudgetEnv env fallback
  else .ok user.budgetBytes

-- The configuration enable_cache hands to ecache_init.
def cacheConfig (store : MapleExpertStore) (user : MapleExpertCacheConfig) (env : CacheBudgetEnv) :
    Except String EcacheConfig := do
  refuse (store.firstMoeLayer = store.numLayers ∨ store.numExperts = 0 ∨ store.expertLogicalBytes = 0)
    "cannot enable Maple expert cache before opening a store"
  refuse (user.payloadAlignment = 0 ∨ user.payloadAlignment &&& (user.payloadAlignment - 1) ≠ 0)
    "Maple expert cache alignment must be a power of two"
  let chargedExpertBytes ← alignU64 store.expertLogicalBytes user.payloadAlignment "Maple expert cache charge"
  let moeLayers := UInt64.ofNat (store.numLayers - store.firstMoeLayer)
  let totalRecords ← checkedMul moeLayers (UInt64.ofNat store.numExperts) "Maple expert record count"
  let wanted ← checkedMul moeLayers kDefaultCacheEntriesPerLayer "Maple default cache entries"
  let defaultEntries := min wanted totalRecords
  refuse (defaultEntries = 0) "Maple expert cache has no MoE records to cache"
  let budgetBytes ← cacheBudget user env defaultEntries chargedExpertBytes
  refuse (budgetBytes < chargedExpertBytes) "Maple expert cache budget is smaller than one expert"
  refuse (budgetBytes > kMaxCacheBudgetBytes) "Maple expert cache budget exceeds hard maximum"
  refuse (budgetBytes / chargedExpertBytes = 0) "Maple expert cache budget admits no experts"
  let maxEntries := maxCacheEntries user (budgetBytes / chargedExpertBytes) totalRecords
  refuse (maxEntries = 0 ∨ maxEntries > UInt64.ofNat (2 ^ 32 - 1)) "Maple expert cache entry count is invalid"
  refuse (user.minEntriesPerLayer.toNat > store.numExperts) "Maple expert cache layer floor exceeds expert count"
  return {
    budgetBytes := budgetBytes
    payloadAlignment := user.payloadAlignment
    maxEntries := maxEntries.toUInt32
    layerCount := UInt32.ofNat store.numLayers
    policy := .lru }

-- enable_cache of a store that has no cache yet. The workspace is a vector of the size ecache_workspace_size
-- asks for.
def enableCache (store : MapleExpertStore) (abi : Abi) (workspace : UInt64) (user : MapleExpertCacheConfig)
    (env : CacheBudgetEnv) : Except String ExpertCache := do
  let config ← cacheConfig store user env
  match ecacheWorkspaceSize abi config with
  | .error _ => .error "Maple expert cache workspace sizing failed: "
  | .ok workspaceBytes =>
    match ecacheInit abi {
        workspace := workspace
        workspaceSize := workspaceBytes
        config := config
        layerFloors := some (cacheFloors store user)
        hasRelease := true
        cacheOut := true } with
    | .error _ => .error "Maple expert cache init failed: "
    | .ok cache => .ok cache

section Spec

theorem bind_ok {α β : Type} {x : Except String α} {f : α → Except String β} {b : β} (done : (x >>= f) = .ok b) :
    ∃ a, x = .ok a ∧ f a = .ok b := by
  cases x with
  | error message => cases done
  | ok a => exact ⟨a, rfl, done⟩

theorem refuse_ok {condition : Prop} [Decidable condition] {message : String} {done : Unit}
    (passed : refuse condition message = .ok done) : ¬ condition := by
  unfold refuse at passed
  split at passed
  · cases passed
  · assumption

theorem align_charges {config : EcacheConfig} {value charged : UInt64} {label : String}
    (nonempty : value ≠ 0) (aligned : alignU64 value config.payloadAlignment label = .ok charged) :
    payloadCharge config value = .ok charged := by
  unfold alignU64 at aligned
  split at aligned
  · cases aligned
  rename_i positive
  unfold payloadCharge
  rw [if_neg nonempty, if_neg positive]
  dsimp only at aligned ⊢
  by_cases whole : value % config.payloadAlignment = 0
  · rw [if_pos whole] at aligned
    cases aligned
    simp [whole]
  · rw [if_neg whole, checkedAdd] at aligned
    split at aligned
    · cases aligned
    · rename_i fits
      cases aligned
      rw [if_pos whole]
      exact if_neg fits

theorem cache_config_spec {store : MapleExpertStore} {user : MapleExpertCacheConfig} {env : CacheBudgetEnv}
    {config : EcacheConfig} (accepted : cacheConfig store user env = .ok config) :
    config.layerCount = UInt32.ofNat store.numLayers ∧
      ∃ charge, payloadCharge config store.expertLogicalBytes = .ok charge := by
  unfold cacheConfig at accepted
  obtain ⟨_, opened, accepted⟩ := bind_ok accepted
  obtain ⟨_, _, accepted⟩ := bind_ok accepted
  obtain ⟨charged, aligned, accepted⟩ := bind_ok accepted
  iterate 9 obtain ⟨_, _, accepted⟩ := bind_ok accepted
  cases accepted
  have nonempty : store.expertLogicalBytes ≠ 0 := fun zero => refuse_ok opened (.inr (.inr zero))
  exact ⟨rfl, charged, align_charges nonempty aligned⟩

theorem init_config {abi : Abi} {args : InitArgs} {cache : ExpertCache} (accepted : ecacheInit abi args = .ok cache) :
    cache.config = args.config := by
  unfold ecacheInit at accepted
  split at accepted
  · cases accepted
  split at accepted
  · cases accepted
  split at accepted
  · cases accepted
  split at accepted
  · cases accepted
  split at accepted
  · cases accepted
  split at accepted
  · cases accepted
  cases accepted
  rfl

theorem enable_cache_spec {store : MapleExpertStore} {abi : Abi} {workspace : UInt64} {user : MapleExpertCacheConfig}
    {env : CacheBudgetEnv} {cache : ExpertCache} (enabled : enableCache store abi workspace user env = .ok cache) :
    Inv cache ∧ cache.released = [] ∧ (∀ i, (cache.entries i).occupied = false) ∧
      cache.config.layerCount.toNat = store.numLayers ∧
      ∃ charge, payloadCharge cache.config store.expertLogicalBytes = .ok charge := by
  unfold enableCache at enabled
  obtain ⟨config, accepted, enabled⟩ := bind_ok enabled
  obtain ⟨layers, charged⟩ := cache_config_spec accepted
  split at enabled
  · cases enabled
  split at enabled
  · cases enabled
  rename_i cache' initialised
  cases enabled
  obtain ⟨inv, released, empty⟩ := init_inv initialised
  have same := init_config initialised
  refine ⟨inv, released, empty, ?_, by rw [same]; exact charged⟩
  have few := store.fewLayers
  rw [same, layers, UInt32.toNat_ofNat']
  exact Nat.mod_eq_of_lt (by omega)

end Spec

end SamosaChat.Maple
