import SamosaChat.Teacher.Calibration

set_option autoImplicit false

-- The sequence state of a conversation that is kept: its caches are laid out [head][capacity][head_dim].
namespace SamosaChat.Teacher

-- A layer of type 1 has a cache, any other a state of fixed size.
structure Geometry where
  layerType : List Nat
  nKvHeads : Nat
  headDim : Nat

def Geometry.attends (geometry : Geometry) (layer : Nat) : Prop :=
  geometry.layerType[layer]? = some 1

instance (geometry : Geometry) (layer : Nat) : Decidable (geometry.attends layer) :=
  inferInstanceAs (Decidable (_ = _))

structure Block (α : Type) where
  label : Nat
  size : Nat
  cells : Nat → α

structure State (α : Type) where
  maxT : Nat
  k : Nat → Option (Block α)
  v : Nat → Option (Block α)
  conv : Nat → Option (Block α)
  recurrent : Nat → Option (Block α)

def modelKvBytesPerToken (geometry : Geometry) : Nat :=
  let full := geometry.layerType.count 1
  let heads := geometry.nKvHeads
  let dim := geometry.headDim
  if full = 0 ∨ heads = 0 ∨ dim = 0 ∨ full > uint64Max / heads ∨ full * heads > uint64Max / dim ∨
      full * heads * dim > uint64Max / 8 then 0
  else full * heads * dim * 8

-- What model_configure_context_limit has made sure of, and resident_growth_memory_fits of a capacity.
def GrowthFits (geometry : Geometry) (capacity : Int) : Prop :=
  modelKvBytesPerToken geometry ≠ 0 ∧ capacity.toNat ≤ uint64Max / modelKvBytesPerToken geometry

instance (geometry : Geometry) (capacity : Int) : Decidable (GrowthFits geometry capacity) :=
  inferInstanceAs (Decidable (_ ∧ _))

structure Heap where
  calls : Nat
  live : Nat → Bool
  fresh : ∀ label, calls ≤ label → live label = false

def Heap.calloc (grants : Nat → Bool) (bytes : Nat) (heap : Heap) : Option Nat × Heap :=
  if grants heap.calls && bytes < 2 ^ 64 then
    (some heap.calls, ⟨heap.calls + 1, Function.update heap.live heap.calls true, fun label later => by
      rw [Function.update_of_ne (by omega)]
      exact heap.fresh label (by omega)⟩)
  else (none, ⟨heap.calls + 1, heap.live, fun label later => heap.fresh label (by omega)⟩)

def Heap.free (heap : Heap) : Option Nat → Heap
  | none => heap
  | some label =>
    ⟨heap.calls, Function.update heap.live label false, fun other later => by
      by_cases same : other = label
      · rw [same, Function.update_self]
      · rw [Function.update_of_ne same]
        exact heap.fresh other later⟩

variable {α : Type}

-- memcpy, which is not defined past the end of a block.
def copyRows (dst src : Block α) (target source count : Nat) : Option (Block α) :=
  if target + count ≤ dst.size ∧ source + count ≤ src.size then
    some { dst with cells := fun j => if target ≤ j ∧ j < target + count then src.cells (source + (j - target)) else dst.cells j }
  else none

def copyHeads (headDim capacity oldCapacity usedRows : Nat) (src : Block α) : Nat → Block α → Option (Block α)
  | 0, dst => some dst
  | head + 1, dst =>
    (copyHeads headDim capacity oldCapacity usedRows src head dst).bind fun dst =>
      copyRows dst src (head * capacity * headDim) (head * oldCapacity * headDim) (usedRows * headDim)

structure Grown (α : Type) where
  heap : Heap
  k : Nat → Option (Block α)
  v : Nat → Option (Block α)

section Grow

variable [Zero α] (grants : Nat → Bool) (geometry : Geometry)

-- The loop over the layers, with ok at its end. None where a copy is not defined.
def growLayers (state : State α) (capacity usedRows : Nat) : List Nat → Nat → Grown α → Option (Grown α × Bool)
  | [], _, grown => some (grown, true)
  | type :: types, i, grown =>
    if type = 1 then
      let count := geometry.nKvHeads * capacity * geometry.headDim % 2 ^ 64
      let first := grown.heap.calloc grants (count * 4)
      let second := first.2.calloc grants (count * 4)
      let fresh (label : Nat) : Block α := ⟨label, count, fun _ => 0⟩
      match first.1, second.1 with
      | some k, some v =>
        match state.k i, state.v i with
        | some oldK, some oldV =>
          -- The two copies of a head do not meet, so that all of the keys can go first.
          match copyHeads geometry.headDim capacity state.maxT usedRows oldK geometry.nKvHeads (fresh k),
            copyHeads geometry.headDim capacity state.maxT usedRows oldV geometry.nKvHeads (fresh v) with
          | some newK, some newV =>
            growLayers state capacity usedRows types (i + 1)
              ⟨second.2, Function.update grown.k i (some newK), Function.update grown.v i (some newV)⟩
          | _, _ => none
        | _, _ => none
      | k, v => some (⟨second.2, Function.update grown.k i (k.map fresh), Function.update grown.v i (v.map fresh)⟩, false)
    else growLayers state capacity usedRows types (i + 1) grown

def freeLayers (k v : Nat → Option (Block α)) (heap : Heap) : Nat → Heap
  | 0 => heap
  | i + 1 => ((freeLayers k v heap i).free ((k i).map (·.label))).free ((v i).map (·.label))

-- No state is a model without its arrays.
def teacherStateGrow (state : Option (State α)) (capacity usedRows : Int) (heap : Heap) :
    Option (Option (State α) × Heap × Bool) :=
  match state with
  | none => some (none, heap, true)
  | some state =>
    if capacity ≤ state.maxT then some (some state, heap, true)
    else if usedRows < 0 ∨ usedRows > state.maxT then some (some state, heap, false)
    else
      let layers := geometry.layerType.length
      let newK := heap.calloc grants (layers * 8)
      let newV := newK.2.calloc grants (layers * 8)
      if newK.1 = none ∨ newV.1 = none then some (some state, (newV.2.free newK.1).free newV.1, false)
      else
        match growLayers grants geometry state capacity.toNat usedRows.toNat geometry.layerType 0
          ⟨newV.2, fun _ => none, fun _ => none⟩ with
        | none => none
        | some (grown, false) =>
          some (some state, ((freeLayers grown.k grown.v grown.heap layers).free newK.1).free newV.1, false)
        | some (grown, true) =>
          let old (cache : Nat → Option (Block α)) (i : Nat) := if geometry.attends i then cache i else none
          some (some { state with
              maxT := capacity.toNat
              k := fun i => if geometry.attends i then grown.k i else state.k i
              v := fun i => if geometry.attends i then grown.v i else state.v i },
            ((freeLayers (old state.k) (old state.v) grown.heap layers).free newK.1).free newV.1, true)

end Grow

section Places

variable {headDim capacity head row d n usedRows : Nat}

-- Where a row of a head lies under a capacity.
def place (headDim capacity head row d : Nat) : Nat :=
  (head * capacity + row) * headDim + d

theorem place_row (inside : d < headDim) : place headDim capacity head row d / headDim = head * capacity + row := by
  rw [place, Nat.mul_comm, Nat.mul_add_div (by omega), Nat.div_eq_of_lt inside, Nat.add_zero]

theorem place_head (inside : d < headDim) (below : row < capacity) :
    place headDim capacity head row d / headDim / capacity = head := by
  rw [place_row inside, Nat.mul_comm, Nat.mul_add_div (by omega), Nat.div_eq_of_lt below, Nat.add_zero]

theorem copied_place (inside : d < headDim) (below : row < capacity) (within : usedRows ≤ capacity) :
    n * capacity * headDim ≤ place headDim capacity head row d ∧
        place headDim capacity head row d < n * capacity * headDim + usedRows * headDim ↔ n = head ∧ row < usedRows := by
  rw [← Nat.add_mul, ← Nat.le_div_iff_mul_le (by omega), ← Nat.div_lt_iff_lt_mul (by omega), place_row inside]
  constructor
  · rintro ⟨above, less⟩
    have least : n ≤ head := by
      rw [← Nat.le_div_iff_mul_le (by omega), ← place_row inside, place_head inside below] at above
      exact above
    have most : head < n + 1 := by
      have next : head * capacity + row < (n + 1) * capacity := by
        rw [Nat.succ_mul]
        omega
      rw [← Nat.div_lt_iff_lt_mul (by omega), ← place_row inside, place_head inside below] at next
      exact next
    obtain rfl : n = head := by omega
    exact ⟨rfl, by omega⟩
  · rintro ⟨rfl, less⟩
    omega

end Places

def Geometry.room (geometry : Geometry) (capacity : Nat) : Nat :=
  geometry.nKvHeads * capacity * geometry.headDim

section Copies

variable {geometry : Geometry} {old capacity usedRows : Nat} {src dst : Block α}

theorem copy_heads (source : src.size = geometry.room old) (target : dst.size = geometry.room capacity)
    (used : usedRows ≤ old) (grows : old ≤ capacity) (n : Nat) (inside : n ≤ geometry.nKvHeads) :
    ∃ new, copyHeads geometry.headDim capacity old usedRows src n dst = some new ∧ new.label = dst.label ∧ new.size = dst.size ∧
      ∀ head row d, row < capacity → d < geometry.headDim → new.cells (place geometry.headDim capacity head row d) =
        if head < n ∧ row < usedRows then src.cells (place geometry.headDim old head row d)
        else dst.cells (place geometry.headDim capacity head row d) := by
  induction n with
  | zero => exact ⟨dst, rfl, rfl, rfl, fun _ _ _ _ _ => by rw [if_neg (by omega)]⟩
  | succ n ih =>
    obtain ⟨new, copied, label, size, cells⟩ := ih (by omega)
    -- A head of either array ends inside of it.
    have ends {rows : Nat} (fits : usedRows ≤ rows) :
        n * rows * geometry.headDim + usedRows * geometry.headDim ≤ geometry.room rows := by
      rw [← Nat.add_mul]
      refine Nat.mul_le_mul_right _ (Nat.le_trans (Nat.add_le_add_left fits _) ?_)
      rw [← Nat.succ_mul]
      exact Nat.mul_le_mul_right _ inside
    rw [copyHeads, copied, Option.bind_some, copyRows,
      if_pos ⟨by rw [size, target]; exact ends (by omega), by rw [source]; exact ends used⟩]
    refine ⟨_, rfl, label, size, fun head row d below within => ?_⟩
    dsimp only
    by_cases here : n = head ∧ row < usedRows
    · obtain ⟨rfl, less⟩ := here
      rw [if_pos ((copied_place within below (by omega)).mpr ⟨rfl, less⟩), if_pos ⟨Nat.lt_succ_self _, less⟩]
      congr 1
      simp only [place, Nat.add_mul]
      omega
    · rw [if_neg (mt (copied_place within below (by omega)).mp here), cells head row d below within]
      by_cases earlier : head < n ∧ row < usedRows
      · rw [if_pos earlier, if_pos ⟨by omega, earlier.2⟩]
      · rw [if_neg earlier, if_neg (by omega)]

end Copies

section Leaks

variable {k v : Nat → Option (Block α)} {heap : Heap} {label layer i layers : Nat} {grown : Grown α}

def Holds (k v : Nat → Option (Block α)) (layer label : Nat) : Prop :=
  (k layer).map (·.label) = some label ∨ (v layer).map (·.label) = some label

theorem calloc_live (grants : Nat → Bool) (bytes : Nat) (heap : Heap) : (heap.calloc grants bytes).2.calls = heap.calls + 1 ∧
      (∀ label, (heap.calloc grants bytes).1 = some label → label = heap.calls) ∧
      ∀ label, (heap.calloc grants bytes).2.live label = if (heap.calloc grants bytes).1 = some label then true else heap.live label := by
  unfold Heap.calloc
  by_cases granted : (grants heap.calls && decide (bytes < 2 ^ 64)) = true
  · simp only [if_pos granted]
    refine ⟨trivial, fun label same => (Option.some.inj same).symm, fun label => ?_⟩
    simp only [Function.update_apply, Option.some.injEq, eq_comm]
  · simp only [if_neg granted]
    exact ⟨trivial, nofun, fun label => (if_neg nofun).symm⟩

theorem free_live (heap : Heap) (freed : Option Nat) (label : Nat) :
    (heap.free freed).live label = if freed = some label then false else heap.live label := by
  cases freed with
  | none => exact (if_neg nofun).symm
  | some other => simp only [Heap.free, Function.update_apply, Option.some.injEq, eq_comm]

theorem free_layers_live (n : Nat) (label : Nat) :
    (freeLayers k v heap n).live label = true ↔ heap.live label = true ∧ ∀ layer < n, ¬ Holds k v layer label := by
  induction n with
  | zero => exact ⟨fun live => ⟨live, fun _ => nofun⟩, fun live => live.1⟩
  | succ n ih =>
    rw [freeLayers, free_live, free_live]
    split_ifs with last first
    · exact ⟨nofun, fun live => absurd (.inr last) (live.2 n (Nat.lt_succ_self n))⟩
    · exact ⟨nofun, fun live => absurd (.inl first) (live.2 n (Nat.lt_succ_self n))⟩
    · rw [ih]
      refine ⟨fun live => ⟨live.1, fun layer below => ?_⟩, fun live => ⟨live.1, fun layer below => live.2 layer (by omega)⟩⟩
      rcases Nat.lt_succ_iff_lt_or_eq.mp below with less | rfl
      · exact live.2 layer less
      · exact fun held => held.elim first last

-- Of what was allocated since, the live blocks are those of the fresh arrays, which have none from layer i on.
structure Owned (layers : Nat) (heap : Heap) (i : Nat) (grown : Grown α) : Prop where
  calls : heap.calls ≤ grown.heap.calls
  below : ∀ label < heap.calls, grown.heap.live label = heap.live label
  above : ∀ label, heap.calls ≤ label → grown.heap.live label = true → ∃ layer < layers, Holds grown.k grown.v layer label
  new : ∀ layer label, Holds grown.k grown.v layer label → heap.calls ≤ label
  later : ∀ layer, i ≤ layer → grown.k layer = none ∧ grown.v layer = none

theorem owned_step (owned : Owned layers heap i grown) (inside : i < layers) (grants : Nat → Bool) (bytes : Nat)
    (newK newV : Option (Block α)) (k : newK.map (·.label) = (grown.heap.calloc grants bytes).1)
    (v : newV.map (·.label) = ((grown.heap.calloc grants bytes).2.calloc grants bytes).1) :
    Owned layers heap (i + 1) ⟨((grown.heap.calloc grants bytes).2.calloc grants bytes).2,
      Function.update grown.k i newK, Function.update grown.v i newV⟩ := by
  obtain ⟨calls, first, live⟩ := calloc_live grants bytes grown.heap
  obtain ⟨calls', first', live'⟩ := calloc_live grants bytes (grown.heap.calloc grants bytes).2
  have least := owned.calls
  have other {layer label : Nat} (different : layer ≠ i) :
      Holds (Function.update grown.k i newK) (Function.update grown.v i newV) layer label ↔ Holds grown.k grown.v layer label := by
    rw [Holds, Holds, Function.update_of_ne different, Function.update_of_ne different]
  have here {label : Nat} : Holds (Function.update grown.k i newK) (Function.update grown.v i newV) i label ↔
      newK.map (·.label) = some label ∨ newV.map (·.label) = some label := by
    rw [Holds, Function.update_self, Function.update_self]
  refine ⟨by dsimp only; omega, fun label below => ?_, fun label above alive => ?_, fun layer label held => ?_, fun layer later => ?_⟩
  · have early : ¬ (grown.heap.calloc grants bytes).1 = some label := fun same => by have := first _ same; omega
    have early' : ¬ ((grown.heap.calloc grants bytes).2.calloc grants bytes).1 = some label := fun same => by
      have := first' _ same
      omega
    dsimp only
    rw [live', if_neg early', live, if_neg early, owned.below label below]
  · dsimp only at alive ⊢
    rw [live', live] at alive
    split_ifs at alive with last next
    · exact ⟨i, inside, here.mpr (.inr (v.trans last))⟩
    · exact ⟨i, inside, here.mpr (.inl (k.trans next))⟩
    · obtain ⟨layer, below, held⟩ := owned.above label above alive
      have different : layer ≠ i := by
        rintro rfl
        obtain ⟨noK, noV⟩ := owned.later layer (Nat.le_refl _)
        rw [Holds, noK, noV] at held
        exact held.elim nofun nofun
      exact ⟨layer, below, (other different).mpr held⟩
  · by_cases same : layer = i
    · subst same
      rcases here.mp held with one | one
      · have := first _ (k.symm.trans one)
        omega
      · have := first' _ (v.symm.trans one)
        omega
    · exact owned.new layer label ((other same).mp held)
  · dsimp only
    rw [Function.update_of_ne (by omega), Function.update_of_ne (by omega)]
    exact owned.later layer (by omega)

theorem owned_freed (owned : Owned layers heap i grown) (label : Nat) :
    (freeLayers grown.k grown.v grown.heap layers).live label = heap.live label := by
  rw [Bool.eq_iff_iff, free_layers_live]
  by_cases early : label < heap.calls
  · rw [owned.below label early]
    refine ⟨fun alive => alive.1, fun alive => ⟨alive, fun layer _ held => ?_⟩⟩
    have := owned.new layer label held
    omega
  · rw [heap.fresh label (by omega)]
    refine ⟨fun alive => ?_, nofun⟩
    obtain ⟨layer, below, held⟩ := owned.above label (by omega) alive.1
    exact absurd held (alive.2 layer below)

end Leaks

section Sound

variable {geometry : Geometry}

def cached (geometry : Geometry) (maxT : Nat) (cache : Nat → Option (Block α)) (layer : Nat) : Prop :=
  ∃ block, cache layer = some block ∧ block.size = geometry.room maxT

def Sized (geometry : Geometry) (state : State α) : Prop :=
  ∀ layer, geometry.attends layer → cached geometry state.maxT state.k layer ∧ cached geometry state.maxT state.v layer

variable [Zero α]

def cell (geometry : Geometry) (maxT : Nat) (cache : Nat → Option (Block α)) (layer head row d : Nat) : α :=
  match cache layer with
  | some block => block.cells (place geometry.headDim maxT head row d)
  | none => 0

structure Moved (geometry : Geometry) (old capacity usedRows : Nat) (cache cache' : Nat → Option (Block α)) (layer : Nat) : Prop where
  sized : cached geometry capacity cache' layer
  cells : ∀ head row d, head < geometry.nKvHeads → row < capacity → d < geometry.headDim →
    cell geometry capacity cache' layer head row d = if row < usedRows then cell geometry old cache layer head row d else 0

theorem copied_moved {old capacity usedRows layer : Nat} {cache : Nat → Option (Block α)} {src : Block α}
    (stored : cache layer = some src) (size : src.size = geometry.room old) (used : usedRows ≤ old) (grows : old ≤ capacity)
    (label : Nat) :
    ∃ new, copyHeads geometry.headDim capacity old usedRows src geometry.nKvHeads ⟨label, geometry.room capacity, fun _ => 0⟩ =
        some new ∧ new.label = label ∧
      ∀ cache', cache' layer = some new → Moved geometry old capacity usedRows cache cache' layer := by
  have target : Block.size ⟨label, geometry.room capacity, fun _ => (0 : α)⟩ = geometry.room capacity := rfl
  obtain ⟨new, copied, named, size', cells⟩ := copy_heads size target used grows geometry.nKvHeads (Nat.le_refl _)
  refine ⟨new, copied, named, fun cache' stored' => ⟨⟨new, stored', size'⟩, fun head row d inside below within => ?_⟩⟩
  rw [cell, cell, stored, stored']
  dsimp only
  rw [cells head row d below within]
  by_cases less : row < usedRows
  · rw [if_pos ⟨inside, less⟩, if_pos less]
  · rw [if_neg (fun both => less both.2), if_neg less]

variable {state : State α} {capacity usedRows : Nat} {heap : Heap} {grants : Nat → Bool}

variable (grants) in
theorem grow_layers (small : geometry.room capacity < 2 ^ 64) (sized : Sized geometry state) (used : usedRows ≤ state.maxT)
    (grows : state.maxT ≤ capacity) (types : List Nat) :
    ∀ i grown, geometry.layerType.drop i = types → Owned geometry.layerType.length heap i grown →
      ∃ grown' ok, growLayers grants geometry state capacity usedRows types i grown = some (grown', ok) ∧
        (∃ next, Owned geometry.layerType.length heap next grown') ∧
        (∀ layer < i, grown'.k layer = grown.k layer ∧ grown'.v layer = grown.v layer) ∧
        (ok = true → ∀ layer, i ≤ layer → geometry.attends layer →
          Moved geometry state.maxT capacity usedRows state.k grown'.k layer ∧
          Moved geometry state.maxT capacity usedRows state.v grown'.v layer) := by
  induction types with
  | nil =>
    intro i grown rest owned
    have past := List.drop_eq_nil_iff.mp rest
    refine ⟨grown, true, rfl, ⟨i, owned⟩, fun _ _ => ⟨rfl, rfl⟩, fun _ layer later attends => ?_⟩
    rw [Geometry.attends, List.getElem?_eq_none (by omega)] at attends
    cases attends
  | cons type types ih =>
    intro i grown rest owned
    have inside : i < geometry.layerType.length := by
      by_contra past
      rw [List.drop_eq_nil_of_le (by omega)] at rest
      cases rest
    have here : geometry.layerType[i]? = some type := by
      rw [← List.head?_drop, rest, List.head?_cons]
    have rest' : geometry.layerType.drop (i + 1) = types := by
      rw [← List.tail_drop, rest, List.tail_cons]
    by_cases attends : type = 1
    · subst attends
      obtain ⟨⟨oldK, storedK, sizeK⟩, ⟨oldV, storedV, sizeV⟩⟩ := sized i here
      have whole : geometry.nKvHeads * capacity * geometry.headDim % 2 ^ 64 = geometry.room capacity := Nat.mod_eq_of_lt small
      have step := owned_step owned inside grants (geometry.room capacity * 4)
      have kept {cache : Nat → Option (Block α)} {new : Option (Block α)} {layer : Nat} (earlier : layer < i) :
          Function.update cache i new layer = cache layer := Function.update_of_ne (by omega) _ _
      rw [growLayers, if_pos rfl, whole, storedK, storedV]
      dsimp only
      revert step
      rcases grown.heap.calloc grants (geometry.room capacity * 4) with ⟨k, heap'⟩
      dsimp only
      rcases heap'.calloc grants (geometry.room capacity * 4) with ⟨v, heap''⟩
      intro step
      cases k with
      | none =>
        have named : (v.map fun label => (⟨label, geometry.room capacity, fun _ => 0⟩ : Block α)).map (·.label) = v := by
          cases v <;> rfl
        exact ⟨_, false, rfl, ⟨_, step none _ rfl named⟩, fun layer earlier => ⟨kept earlier, kept earlier⟩, nofun⟩
      | some k =>
        cases v with
        | none =>
          exact ⟨_, false, rfl, ⟨_, step (some ⟨k, geometry.room capacity, fun _ => 0⟩) none rfl rfl⟩,
            fun layer earlier => ⟨kept earlier, kept earlier⟩, nofun⟩
        | some v =>
          obtain ⟨newK, copiedK, labelK, movedK⟩ := copied_moved storedK sizeK used grows k
          obtain ⟨newV, copiedV, labelV, movedV⟩ := copied_moved storedV sizeV used grows v
          dsimp only
          rw [copiedK, copiedV]
          obtain ⟨grown', ok, grows', owned', before, moved⟩ := ih (i + 1) _ rest'
            (step (some newK) (some newV) (congrArg some labelK) (congrArg some labelV))
          refine ⟨grown', ok, grows', owned', fun layer earlier => ?_, fun done layer later attends => ?_⟩
          · obtain ⟨sameK, sameV⟩ := before layer (by omega)
            exact ⟨sameK.trans (kept earlier), sameV.trans (kept earlier)⟩
          · rcases Nat.eq_or_lt_of_le later with rfl | more
            · obtain ⟨sameK, sameV⟩ := before i (Nat.lt_succ_self i)
              exact ⟨movedK _ (sameK.trans (Function.update_self ..)), movedV _ (sameV.trans (Function.update_self ..))⟩
            · exact moved done layer more attends
    · rw [growLayers, if_neg attends]
      obtain ⟨grown', ok, grows', owned', before, moved⟩ := ih (i + 1) grown rest'
        ⟨owned.calls, owned.below, owned.above, owned.new, fun layer later => owned.later layer (by omega)⟩
      refine ⟨grown', ok, grows', owned', fun layer earlier => before layer (by omega), fun done layer later attends' => ?_⟩
      have other : layer ≠ i := fun same => attends (Option.some.inj (here.symm.trans (same ▸ attends')))
      exact moved done layer (by omega) attends'

theorem fits_room {capacity : Int} (fits : GrowthFits geometry capacity) : geometry.room capacity.toNat < 2 ^ 64 := by
  obtain ⟨some_, least⟩ := fits
  unfold modelKvBytesPerToken at some_ least
  dsimp only at some_ least
  split_ifs at some_ least with none_
  · exact absurd rfl some_
  · obtain ⟨full, _⟩ := not_or.mp none_
    rw [Nat.le_div_iff_mul_le (by omega)] at least
    have one : 1 ≤ geometry.layerType.count 1 * 8 := by omega
    have more := Nat.mul_le_mul_left (geometry.room capacity.toNat) one
    have same : geometry.room capacity.toNat * (geometry.layerType.count 1 * 8) =
        capacity.toNat * (geometry.layerType.count 1 * geometry.nKvHeads * geometry.headDim * 8) := by
      rw [Geometry.room]
      ring
    rw [uint64Max] at least
    omega

theorem arrays_freed (bytes : Nat) (heap' : Heap) (label : Nat)
    (same : heap'.live label = ((heap.calloc grants bytes).2.calloc grants bytes).2.live label) :
    ((heap'.free (heap.calloc grants bytes).1).free ((heap.calloc grants bytes).2.calloc grants bytes).1).live label =
      heap.live label := by
  obtain ⟨calls, first, live⟩ := calloc_live grants bytes heap
  obtain ⟨_, second, live'⟩ := calloc_live grants bytes (heap.calloc grants bytes).2
  rw [free_live, free_live, same, live', live]
  split_ifs with last before
  · have := second label last
    exact (heap.fresh label (by omega)).symm
  · have := first label before
    exact (heap.fresh label (by omega)).symm
  · rfl

structure Transparent (geometry : Geometry) (state state' : State α) (capacity usedRows : Int) : Prop where
  kept : capacity ≤ state.maxT → state' = state
  maxT : (state'.maxT : Int) = max (state.maxT : Int) capacity
  conv : state'.conv = state.conv
  recurrent : state'.recurrent = state.recurrent
  rows : state.maxT < capacity → ∀ layer, geometry.attends layer →
    Moved geometry state.maxT state'.maxT usedRows.toNat state.k state'.k layer ∧
      Moved geometry state.maxT state'.maxT usedRows.toNat state.v state'.v layer

structure GrowCall (geometry : Geometry) (state : State α) (capacity usedRows : Int) (heap : Heap)
    (result : Option (Option (State α) × Heap × Bool)) (state' : State α) (heap' : Heap) (ok : Bool) : Prop where
  ends : result = some (some state', heap', ok)
  sized : Sized geometry state'
  done : ok = true → Transparent geometry state state' capacity usedRows
  failed : ok = false → state' = state ∧ ∀ label, heap'.live label = heap.live label

variable (grants) in
theorem grow_call {capacity usedRows : Int} (heap : Heap) (fits : GrowthFits geometry capacity) (sized : Sized geometry state)
    (some_ : 0 ≤ usedRows) (used : usedRows ≤ state.maxT) : ∃ state' heap' ok, GrowCall geometry state capacity usedRows heap
      (teacherStateGrow grants geometry (some state) capacity usedRows heap) state' heap' ok := by
  unfold teacherStateGrow
  dsimp only
  by_cases grows : capacity ≤ state.maxT
  · rw [if_pos grows]
    exact ⟨state, heap, true, rfl, sized, fun _ =>
      ⟨fun _ => rfl, (max_eq_left grows).symm, rfl, rfl, fun more => absurd grows (by omega)⟩, nofun⟩
  rw [if_neg grows, if_neg (by omega)]
  by_cases arrays : (heap.calloc grants (geometry.layerType.length * 8)).1 = none ∨
      ((heap.calloc grants (geometry.layerType.length * 8)).2.calloc grants (geometry.layerType.length * 8)).1 = none
  · rw [if_pos arrays]
    exact ⟨state, _, false, rfl, sized, nofun, fun _ => ⟨rfl, fun label => arrays_freed _ _ label rfl⟩⟩
  rw [if_neg arrays]
  obtain ⟨grown, ok, runs, ⟨next, owned⟩, _, moved⟩ := grow_layers grants (fits_room fits) sized
    (show usedRows.toNat ≤ state.maxT by omega) (by omega) geometry.layerType 0
    ⟨((heap.calloc grants (geometry.layerType.length * 8)).2.calloc grants (geometry.layerType.length * 8)).2,
      fun _ => none, fun _ => none⟩ rfl
    ⟨Nat.le_refl _, fun _ _ => rfl, fun label later alive => absurd alive (by rw [Heap.fresh _ label later]; nofun),
      fun _ _ held => held.elim nofun nofun, fun _ _ => ⟨rfl, rfl⟩⟩
  rw [runs]
  cases ok with
  | false => exact ⟨state, _, false, rfl, sized, nofun, fun _ => ⟨rfl, fun label => arrays_freed _ _ label (owned_freed owned label)⟩⟩
  | true =>
    have rows (layer : Nat) (attends : geometry.attends layer) := moved rfl layer (Nat.zero_le _) attends
    have put {old : Nat} {cache new : Nat → Option (Block α)} {layer : Nat} (attends : geometry.attends layer)
        (held : Moved geometry old capacity.toNat usedRows.toNat cache new layer) :
        Moved geometry old capacity.toNat usedRows.toNat cache (fun i => if geometry.attends i then new i else cache i) layer := by
      obtain ⟨⟨block, stored, size⟩, cells⟩ := held
      refine ⟨⟨block, (if_pos attends).trans stored, size⟩, fun head row d inside below within => ?_⟩
      rw [← cells head row d inside below within, cell, cell, if_pos attends]
    refine ⟨_, _, true, rfl, fun layer attends => ?_, fun _ => ⟨fun small => absurd small grows, ?_, rfl, rfl, fun _ layer attends => ?_⟩,
      nofun⟩
    · exact ⟨(put attends (rows layer attends).1).sized, (put attends (rows layer attends).2).sized⟩
    · dsimp only
      omega
    · exact ⟨put attends (rows layer attends).1, put attends (rows layer attends).2⟩

end Sound

section Runs

variable {ι : Type} [Zero α]

-- What a step of the model reads, and what it writes: a row of each cache, and the states of the other layers.
structure View (α : Type) where
  k : Nat → Nat → Nat → Nat → α
  v : Nat → Nat → Nat → Nat → α
  conv : Nat → Option (Block α)
  recurrent : Nat → Option (Block α)

structure Written (α : Type) where
  k : Nat → Nat → Nat → α
  v : Nat → Nat → Nat → α
  conv : Nat → Option (Block α)
  recurrent : Nat → Option (Block α)

structure Session (α : Type) where
  state : State α
  usedRows : Nat
  heap : Heap

inductive Turn (ι : Type) where
  | step (input : ι)
  | grow (capacity : Int)

def Turn.steps : Turn ι → Bool
  | .step _ => true
  | .grow _ => false

variable (geometry : Geometry)

def rowsOf (maxT usedRows : Nat) (cache : Nat → Option (Block α)) (layer head row d : Nat) : α :=
  if geometry.attends layer ∧ head < geometry.nKvHeads ∧ row < usedRows ∧ d < geometry.headDim then
    cell geometry maxT cache layer head row d
  else 0

def view (session : Session α) : View α where
  k := rowsOf geometry session.state.maxT session.usedRows session.state.k
  v := rowsOf geometry session.state.maxT session.usedRows session.state.v
  conv := session.state.conv
  recurrent := session.state.recurrent

def writeRow (maxT row : Nat) (new : Nat → Nat → Nat → α) (cache : Nat → Option (Block α)) (layer : Nat) : Option (Block α) :=
  (cache layer).map fun block => { block with cells := fun j =>
    if j / geometry.headDim % maxT = row then new layer (j / geometry.headDim / maxT) (j % geometry.headDim) else block.cells j }

variable (grants : Nat → Bool) (compute : ι → View α → Written α)

def stepped (session : Session α) (input : ι) : Session α :=
  let new := compute input (view geometry session)
  { session with
    state := { session.state with
      k := writeRow geometry session.state.maxT session.usedRows new.k session.state.k
      v := writeRow geometry session.state.maxT session.usedRows new.v session.state.v
      conv := new.conv
      recurrent := new.recurrent }
    usedRows := session.usedRows + 1 }

-- A step needs a row that is not in use. A growth is asked for where the caller's checks let it through.
def turn (session : Session α) : Turn ι → Option (Session α)
  | .step input => if session.usedRows < session.state.maxT then some (stepped geometry compute session input) else none
  | .grow capacity =>
    if GrowthFits geometry capacity then
      match teacherStateGrow grants geometry (some session.state) capacity session.usedRows session.heap with
      | some (some state, heap, _) => some { session with state := state, heap := heap }
      | _ => none
    else some session

structure Alike (session other : Session α) : Prop where
  sized : Sized geometry session.state
  sized' : Sized geometry other.state
  room : session.usedRows ≤ session.state.maxT
  used : other.usedRows = session.usedRows
  same : view geometry other = view geometry session

variable {geometry grants compute} {session next other : Session α}

omit [Zero α] in
theorem write_sized {maxT row : Nat} {new : Nat → Nat → Nat → α} {cache : Nat → Option (Block α)} {layer : Nat}
    (held : cached geometry maxT cache layer) : cached geometry maxT (writeRow geometry maxT row new cache) layer := by
  obtain ⟨block, stored, size⟩ := held
  exact ⟨_, congrArg (Option.map _) stored, size⟩

theorem rows_written {maxT usedRows : Nat} (new : Nat → Nat → Nat → α) {cache : Nat → Option (Block α)} (room : usedRows < maxT)
    (held : ∀ layer, geometry.attends layer → cached geometry maxT cache layer) (layer head row d : Nat) :
    rowsOf geometry maxT (usedRows + 1) (writeRow geometry maxT usedRows new cache) layer head row d =
      if geometry.attends layer ∧ head < geometry.nKvHeads ∧ row = usedRows ∧ d < geometry.headDim then new layer head d
      else rowsOf geometry maxT usedRows cache layer head row d := by
  unfold rowsOf
  by_cases within : geometry.attends layer ∧ head < geometry.nKvHeads ∧ row < usedRows + 1 ∧ d < geometry.headDim
  · obtain ⟨attends, inside, below, less⟩ := within
    obtain ⟨block, stored, _⟩ := held layer attends
    have at_ : place geometry.headDim maxT head row d / geometry.headDim % maxT = row := by
      rw [place_row less, Nat.mul_comm, Nat.mul_add_mod, Nat.mod_eq_of_lt (by omega)]
    have last : place geometry.headDim maxT head row d % geometry.headDim = d := by
      rw [place, Nat.mul_comm, Nat.mul_add_mod, Nat.mod_eq_of_lt less]
    rw [if_pos ⟨attends, inside, below, less⟩, cell, cell, writeRow, stored]
    dsimp only [Option.map_some]
    rw [at_, last, place_head less (by omega)]
    by_cases here : row = usedRows
    · rw [if_pos here, if_pos ⟨attends, inside, here, less⟩]
    · rw [if_neg here, if_neg (fun all => here all.2.2.1), if_pos ⟨attends, inside, by omega, less⟩]
  · rw [if_neg within, if_neg (fun all => within ⟨all.1, all.2.1, by omega, all.2.2.2⟩),
      if_neg (fun all => within ⟨all.1, all.2.1, by omega, all.2.2.2⟩)]

theorem view_stepped (sized : Sized geometry session.state) (room : session.usedRows < session.state.maxT) (input : ι) :
    let new := compute input (view geometry session)
    let put (row : Nat → Nat → Nat → α) (rows : Nat → Nat → Nat → Nat → α) (layer head at_ d : Nat) :=
      if geometry.attends layer ∧ head < geometry.nKvHeads ∧ at_ = session.usedRows ∧ d < geometry.headDim then row layer head d
      else rows layer head at_ d
    view geometry (stepped geometry compute session input) =
      ⟨put new.k (view geometry session).k, put new.v (view geometry session).v, new.conv, new.recurrent⟩ := by
  dsimp only [view, stepped]
  congr 1 <;> funext layer head row d
  · exact rows_written _ room (fun layer attends => (sized layer attends).1) layer head row d
  · exact rows_written _ room (fun layer attends => (sized layer attends).2) layer head row d

variable (compute) in
theorem alike_step (input : ι) (alike : Alike geometry session other) (free : session.usedRows < session.state.maxT)
    (free' : other.usedRows < other.state.maxT) :
    Alike geometry (stepped geometry compute session input) (stepped geometry compute other input) := by
  obtain ⟨sized, sized', room, used, same⟩ := alike
  refine ⟨fun layer attends => ?_, fun layer attends => ?_, free, congrArg (· + 1) used, ?_⟩
  · exact ⟨write_sized (sized layer attends).1, write_sized (sized layer attends).2⟩
  · exact ⟨write_sized (sized' layer attends).1, write_sized (sized' layer attends).2⟩
  · rw [view_stepped sized free, view_stepped sized' free', same, used]

theorem alike_grow {capacity : Int} (alike : Alike geometry session other)
    (turns : turn geometry grants compute session (.grow capacity) = some next) :
    Alike geometry next other ∧ session.state.maxT ≤ next.state.maxT := by
  rw [turn] at turns
  split_ifs at turns with fits
  · obtain ⟨state', heap', ok, call⟩ := grow_call grants session.heap fits alike.sized
      (show (0 : Int) ≤ session.usedRows by omega) (by exact_mod_cast alike.room)
    rw [call.ends] at turns
    obtain rfl := Option.some.inj turns
    cases ok with
    | false =>
      obtain ⟨rfl, _⟩ := call.failed rfl
      exact ⟨⟨alike.sized, alike.sized', alike.room, alike.used, alike.same⟩, Nat.le_refl _⟩
    | true =>
      have grown := call.done rfl
      have most := grown.maxT
      have room := alike.room
      refine ⟨⟨call.sized, alike.sized', ?_, alike.used, alike.same.trans ?_⟩, ?_⟩
      · dsimp only
        omega
      · by_cases small : capacity ≤ session.state.maxT
        · rw [grown.kept small]
          rfl
        · have rows {cache new : Nat → Option (Block α)}
              (moved : ∀ layer, geometry.attends layer →
                Moved geometry session.state.maxT state'.maxT (session.usedRows : Int).toNat cache new layer) :
              rowsOf geometry session.state.maxT session.usedRows cache = rowsOf geometry state'.maxT session.usedRows new := by
            funext layer head row d
            unfold rowsOf
            split_ifs with within
            · obtain ⟨attends, inside, below, less⟩ := within
              rw [(moved layer attends).cells head row d inside (by omega) less, if_pos (by omega)]
            · rfl
          dsimp only [view]
          rw [rows fun layer attends => (grown.rows (by omega) layer attends).1,
            rows fun layer attends => (grown.rows (by omega) layer attends).2, grown.conv, grown.recurrent]
      · dsimp only
        omega
  · obtain rfl := Option.some.inj turns
    exact ⟨alike, Nat.le_refl _⟩

theorem turns_alike (turns : List (Turn ι)) : ∀ session other : Session α, Alike geometry session other →
    ∀ last, turns.foldlM (turn geometry grants compute) session = some last →
      session.state.maxT ≤ last.state.maxT ∧ (last.state.maxT ≤ other.state.maxT →
        ∃ last', (turns.filter Turn.steps).foldlM (turn geometry grants compute) other = some last' ∧ Alike geometry last last') := by
  induction turns with
  | nil =>
    intro session other alike last run
    obtain rfl := Option.some.inj run
    exact ⟨Nat.le_refl _, fun _ => ⟨other, rfl, alike⟩⟩
  | cons what turns ih =>
    intro session other alike last run
    rw [List.foldlM_cons] at run
    obtain ⟨next, first, rest⟩ := Option.bind_eq_some_iff.mp run
    cases what with
    | grow capacity =>
      obtain ⟨alike', grows⟩ := alike_grow alike first
      obtain ⟨more, found⟩ := ih next other alike' last rest
      exact ⟨by omega, found⟩
    | step input =>
      obtain ⟨free, same⟩ := within_guard first nofun
      obtain rfl := Option.some.inj same
      have self := alike_step compute input ⟨alike.sized, alike.sized, alike.room, rfl, rfl⟩ free free
      have grows := (ih _ _ self last rest).1
      refine ⟨grows, fun room => ?_⟩
      have free' : other.usedRows < other.state.maxT := by
        have := alike.used
        have : session.state.maxT ≤ last.state.maxT := grows
        omega
      obtain ⟨last', run', alike'⟩ := (ih _ _ (alike_step compute input alike free free') last rest).2 room
      refine ⟨last', ?_, alike'⟩
      rw [List.filter_cons_of_pos rfl, List.foldlM_cons, turn, if_pos free']
      exact run'

variable (geometry grants compute) in
-- Growth does not show: not in one call, and not in a run against one that had the last capacity from the start.
theorem growth_transparent :
    (∀ (state : State α) (capacity usedRows : Int) (heap : Heap), GrowthFits geometry capacity → Sized geometry state → 0 ≤ usedRows →
      usedRows ≤ state.maxT → ∃ state' heap' ok, GrowCall geometry state capacity usedRows heap
        (teacherStateGrow grants geometry (some state) capacity usedRows heap) state' heap' ok) ∧
    (∀ (turns : List (Turn ι)) (session other last : Session α), Alike geometry session other →
      turns.foldlM (turn geometry grants compute) session = some last → last.state.maxT ≤ other.state.maxT →
        ∃ last', (turns.filter Turn.steps).foldlM (turn geometry grants compute) other = some last' ∧ Alike geometry last last') :=
  ⟨fun _ _ _ heap fits sized some_ used => grow_call _ heap fits sized some_ used,
    fun turns session other last alike run room => (turns_alike turns session other alike last run).2 room⟩

end Runs

def small : Geometry := ⟨[1], 1, 1⟩

def smallState : State Nat :=
  ⟨1, fun _ => some ⟨0, 1, fun _ => 7⟩, fun _ => some ⟨1, 1, fun _ => 8⟩, fun _ => none, fun _ => none⟩

theorem small_grows : ∃ state' heap' ok, GrowCall small smallState 2 1 ⟨2, fun _ => false, fun _ _ => rfl⟩
    (teacherStateGrow (fun _ => true) small (some smallState) 2 1 ⟨2, fun _ => false, fun _ _ => rfl⟩) state' heap' ok :=
  (@growth_transparent Nat Unit _ small (fun _ => true) fun _ view => ⟨fun _ _ _ => 0, fun _ _ _ => 0, view.conv, view.recurrent⟩).1
    smallState 2 1 _ (by decide) (fun _ _ => ⟨⟨_, rfl, rfl⟩, ⟨_, rfl, rfl⟩⟩) (by decide) (by decide)

end SamosaChat.Teacher
