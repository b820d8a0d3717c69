import SamosaChat.Install.Catalog
import SamosaChat.Lib.Resolve

set_option autoImplicit false

namespace SamosaChat.Install

open Utf8 Text Binary64 Json Buffers Resolve

section Parts

def checkPath (seenPaths : List Bytes) (artifact : Jval) : Except String Bytes :=
  if isObj artifact = false then .error "artifact is not an object"
  else if (getNum artifact "bytes").all negative then .error "malformed artifact bytes"
  else if (getStr artifact "sha256").any hex64Lower = false then .error "malformed artifact sha256"
  else
    match getStr artifact "install_path" with
    | none => .error "unsafe artifact install_path"
    | some path =>
      if 256 ≤ path.length ∨ installPathIsSafe path = false then .error "unsafe artifact install_path"
      else if 64 ≤ seenPaths.length then .error "too many artifacts"
      else if path ∈ seenPaths then .error "duplicate artifact install_path"
      else .ok path

theorem check_artifact_eq (seenPaths : List Bytes) (artifact : Jval) :
    checkArtifact seenPaths artifact = (checkPath seenPaths artifact).bind fun path =>
      if (getStr artifact "url").any fun url => !artifactUrlIsTrusted url then .error "untrusted artifact host"
      else .ok (path :: seenPaths) := by
  unfold checkArtifact checkPath
  split
  · rfl
  split
  · rfl
  split
  · rfl
  cases getStr artifact "install_path" with
  | none => rfl
  | some path =>
    dsimp only
    split
    · rfl
    split
    · rfl
    split <;> rfl

def checkId (seen : Seen) (entry : Jval) : Except String Bytes :=
  if isObj entry = false then .error "model entry is not an object"
  else
    match getStr entry "id" with
    | none => .error "model entry missing id"
    | some id =>
      if id = [] then .error "model entry missing id"
      else if 64 ≤ seen.ids.length then .error "too many model entries"
      else if id ∈ seen.ids then .error "duplicate model id"
      else .ok id

def checkKind (runtimeAbi : Bytes) (entry : Jval) : Except String (List Jval) :=
  if (getStr entry "backend_kind").all fun kind => !backendKinds.contains kind then .error "unknown backend_kind"
  else if getStr entry "required_runtime_abi" ≠ some runtimeAbi then .error "unsupported runtime_abi"
  else
    match getArr entry "artifacts" with
    | none => .error "model entry missing artifacts"
    | some artifacts =>
      if nativePack entry = false ∧ artifacts = [] then .error "model entry missing artifacts" else .ok artifacts

def cut (id : Bytes) : Bytes :=
  (pathCopy 80 id).1.text

theorem check_model_eq (runtimeAbi : Bytes) (seen : Seen) (entry : Jval) :
    checkModel runtimeAbi seen entry = (checkId seen entry).bind fun id =>
      (checkKind runtimeAbi entry).bind fun artifacts =>
        (artifacts.foldlM checkArtifact seen.paths).map fun paths => { ids := cut id :: seen.ids, paths := paths } := by
  unfold checkModel checkId checkKind
  split
  · rfl
  cases getStr entry "id" with
  | none => rfl
  | some id =>
    dsimp only
    split
    · rfl
    split
    · rfl
    split
    · rfl
    change (if _ then _ else _ : Except String Seen) = (if _ then _ else _ : Except String (List Jval)).bind _
    split
    · rfl
    split
    · rfl
    cases getArr entry "artifacts" with
    | none => rfl
    | some artifacts =>
      dsimp only
      split
      · rfl
      · change (artifacts.foldlM checkArtifact seen.paths).bind _ = Except.map _ _
        cases artifacts.foldlM checkArtifact seen.paths <;> rfl

end Parts

variable {path runtimeAbi : Bytes} {paths : List Bytes}

section Checks

variable {seenPaths : List Bytes} {artifact entry : Jval} {seen : Seen}

theorem path_checked (checked : checkPath seenPaths artifact = .ok path) :
    getStr artifact "install_path" = some path ∧ path.length < 256 ∧ installPathIsSafe path = true ∧ seenPaths.length < 64 ∧
      path ∉ seenPaths := by
  unfold checkPath at checked
  obtain ⟨object, checked⟩ := past_guard checked nofun
  obtain ⟨bytes, checked⟩ := past_guard checked nofun
  obtain ⟨hash, checked⟩ := past_guard checked nofun
  cases named : getStr artifact "install_path" with
  | none =>
    rw [named] at checked
    cases checked
  | some text =>
    rw [named] at checked
    dsimp only at checked
    obtain ⟨unsafe_, checked⟩ := past_guard checked nofun
    obtain ⟨many, checked⟩ := past_guard checked nofun
    obtain ⟨twice, checked⟩ := past_guard checked nofun
    cases checked
    obtain ⟨short, safe⟩ := not_or.mp unsafe_
    exact ⟨rfl, Nat.lt_of_not_le short, by simpa using safe, Nat.lt_of_not_le many, twice⟩

theorem id_checked {id : Bytes} (checked : checkId seen entry = .ok id) :
    getStr entry "id" = some id ∧ seen.ids.length < 64 ∧ id ∉ seen.ids := by
  unfold checkId at checked
  obtain ⟨object, checked⟩ := past_guard checked nofun
  cases named : getStr entry "id" with
  | none =>
    rw [named] at checked
    cases checked
  | some text =>
    rw [named] at checked
    dsimp only at checked
    obtain ⟨none_, checked⟩ := past_guard checked nofun
    obtain ⟨many, checked⟩ := past_guard checked nofun
    obtain ⟨twice, checked⟩ := past_guard checked nofun
    cases checked
    exact ⟨rfl, Nat.lt_of_not_le many, twice⟩

theorem kind_checked {artifacts : List Jval} (checked : checkKind runtimeAbi entry = .ok artifacts) :
    getArr entry "artifacts" = some artifacts := by
  unfold checkKind at checked
  split at checked
  · cases checked
  split at checked
  · cases checked
  cases listed : getArr entry "artifacts" with
  | none =>
    rw [listed] at checked
    cases checked
  | some kids =>
    rw [listed] at checked
    dsimp only at checked
    split at checked
    · cases checked
    · cases checked
      rfl

theorem artifact_checked (checked : checkArtifact seenPaths artifact = .ok paths) :
    ∃ path, checkPath seenPaths artifact = .ok path ∧ paths = path :: seenPaths := by
  rw [check_artifact_eq] at checked
  cases path : checkPath seenPaths artifact with
  | error reason =>
    rw [path] at checked
    cases checked
  | ok text =>
    rw [path] at checked
    change (if _ then _ else _ : Except String (List Bytes)) = _ at checked
    split at checked
    · cases checked
    · cases checked
      exact ⟨text, rfl, rfl⟩

theorem model_checked {out : Seen} (checked : checkModel runtimeAbi seen entry = .ok out) :
    ∃ id artifacts paths, checkId seen entry = .ok id ∧ getArr entry "artifacts" = some artifacts ∧
      artifacts.foldlM checkArtifact seen.paths = .ok paths ∧ out = { ids := cut id :: seen.ids, paths := paths } := by
  rw [check_model_eq] at checked
  cases taken : checkId seen entry with
  | error reason =>
    rw [taken] at checked
    cases checked
  | ok id =>
    rw [taken] at checked
    cases listed : checkKind runtimeAbi entry with
    | error reason =>
      rw [listed] at checked
      cases checked
    | ok artifacts =>
      rw [listed] at checked
      cases walked : artifacts.foldlM checkArtifact seen.paths with
      | error reason =>
        change (artifacts.foldlM checkArtifact seen.paths).map _ = _ at checked
        rw [walked] at checked
        cases checked
      | ok paths =>
        change (artifacts.foldlM checkArtifact seen.paths).map _ = _ at checked
        rw [walked] at checked
        cases checked
        exact ⟨id, artifacts, paths, rfl, kind_checked listed, walked, rfl⟩

end Checks

section Walks

theorem fold_keeps {σ τ : Type} {step : σ → τ → Except String σ} {Held : List τ → σ → Prop}
    (steps : ∀ done state next state', Held done state → step state next = .ok state' → Held (done ++ [next]) state')
    (rest : List τ) : ∀ (done : List τ) (state state' : σ), Held done state → rest.foldlM step state = .ok state' →
      Held (done ++ rest) state' := by
  induction rest with
  | nil =>
    intro done state state' kept walked
    cases walked
    rw [List.append_nil]
    exact kept
  | cons next rest ih =>
    intro done state state' kept walked
    rw [List.foldlM_cons] at walked
    cases first : step state next with
    | error reason =>
      rw [first] at walked
      cases walked
    | ok middle =>
      rw [first] at walked
      have all := ih (done ++ [next]) middle state' (steps done state next middle kept first) walked
      rw [List.append_assoc] at all
      exact all

def idsOf (models : List Jval) : List Bytes :=
  models.filterMap fun entry => getStr entry "id"

def artifactsIn (entry : Jval) : List Jval :=
  (getArr entry "artifacts").getD []

def pathsOf (artifacts : List Jval) : List Bytes :=
  artifacts.filterMap fun artifact => getStr artifact "install_path"

structure PathsKept (artifacts : List Jval) (paths : List Bytes) : Prop where
  listed : paths = (pathsOf artifacts).reverse
  distinct : paths.Nodup
  safe : ∀ path ∈ paths, path.length < 256 ∧ installPathIsSafe path = true
  room : paths.length ≤ 64

theorem paths_step {done : List Jval} {artifact : Jval} (kept : PathsKept done paths)
    (checked : checkPath paths artifact = .ok path) : PathsKept (done ++ [artifact]) (path :: paths) := by
  obtain ⟨named, short, safe, room, new⟩ := path_checked checked
  refine ⟨?_, List.nodup_cons.mpr ⟨new, kept.distinct⟩, List.forall_mem_cons.mpr ⟨⟨short, safe⟩, kept.safe⟩, room⟩
  unfold pathsOf
  rw [List.filterMap_append, List.reverse_append, List.filterMap_cons, named, kept.listed]
  rfl

theorem artifacts_walk {artifacts done : List Jval} {paths' : List Bytes} (kept : PathsKept done paths)
    (walked : artifacts.foldlM checkArtifact paths = .ok paths') : PathsKept (done ++ artifacts) paths' := by
  refine fold_keeps (fun done paths artifact paths' kept checked => ?_) artifacts done paths paths' kept walked
  obtain ⟨path, taken, rfl⟩ := artifact_checked checked
  exact paths_step kept taken

-- The ids of the models that were checked, each as its row keeps it and none of them one that an earlier row held.
structure ModelsKept (models : List Jval) (seen : Seen) : Prop where
  ids : seen.ids = ((idsOf models).map cut).reverse
  apart : (idsOf models).Pairwise fun old new => new ≠ cut old
  room : seen.ids.length ≤ 64
  paths : PathsKept (models.flatMap artifactsIn) seen.paths

theorem kept_start : ModelsKept [] { ids := [], paths := [] } :=
  ⟨rfl, .nil, Nat.zero_le _, rfl, .nil, fun _ is => (List.not_mem_nil is).elim, Nat.zero_le _⟩

theorem ids_step {models : List Jval} {seen : Seen} {entry : Jval} {id : Bytes} (kept : ModelsKept models seen)
    (checked : checkId seen entry = .ok id) : cut id :: seen.ids = ((idsOf (models ++ [entry])).map cut).reverse ∧
      (idsOf (models ++ [entry])).Pairwise (fun old new => new ≠ cut old) ∧ (cut id :: seen.ids).length ≤ 64 := by
  obtain ⟨named, room, new⟩ := id_checked checked
  have grown : idsOf (models ++ [entry]) = idsOf models ++ [id] := by
    unfold idsOf
    rw [List.filterMap_append, List.filterMap_cons, named]
    rfl
  rw [grown, List.map_append, List.reverse_append, List.pairwise_append]
  refine ⟨by rw [kept.ids]; rfl, ⟨kept.apart, List.pairwise_singleton _ _, fun old is new' last => ?_⟩, room⟩
  rw [List.mem_singleton.mp last]
  intro same
  rw [kept.ids, List.mem_reverse, same] at new
  exact new (List.mem_map_of_mem is)

theorem models_walk {models done : List Jval} {seen seen' : Seen} (kept : ModelsKept done seen)
    (walked : models.foldlM (checkModel runtimeAbi) seen = .ok seen') : ModelsKept (done ++ models) seen' := by
  refine fold_keeps (fun done seen entry seen' kept checked => ?_) models done seen seen' kept walked
  obtain ⟨id, artifacts, paths, taken, listed, through, rfl⟩ := model_checked checked
  obtain ⟨ids, apart, room⟩ := ids_step kept taken
  refine ⟨ids, apart, room, ?_⟩
  have inner : artifactsIn entry = artifacts := by
    rw [artifactsIn, listed]
    rfl
  rw [List.flatMap_append, List.flatMap_singleton, inner]
  exact artifacts_walk kept.paths through

end Walks

section Arrays

structure Seen.Fits (seen : Seen) : Prop where
  idRows : seen.ids.length ≤ 64
  idTexts : ∀ id ∈ seen.ids, id.length < 80
  pathRows : seen.paths.length ≤ 64
  pathTexts : ∀ path ∈ seen.paths, path.length < 256

-- What is in the arrays at the start of the checks, and each time a row was filled, whether the checks go on or not.
inductive Written (runtimeAbi : Bytes) (models : List Jval) : Seen → Prop
  | start : Written runtimeAbi models { ids := [], paths := [] }
  | id {before : List Jval} {entry : Jval} {seen : Seen} {id : Bytes} (front : before ++ [entry] <+: models)
      (checked : before.foldlM (checkModel runtimeAbi) { ids := [], paths := [] } = .ok seen)
      (taken : checkId seen entry = .ok id) :
      Written runtimeAbi models { ids := cut id :: seen.ids, paths := seen.paths }
  | path {before done artifacts : List Jval} {entry artifact : Jval} {seen : Seen} {id path : Bytes} {paths : List Bytes}
      (front : before ++ [entry] <+: models)
      (checked : before.foldlM (checkModel runtimeAbi) { ids := [], paths := [] } = .ok seen)
      (taken : checkId seen entry = .ok id) (listed : checkKind runtimeAbi entry = .ok artifacts)
      (first : done ++ [artifact] <+: artifacts) (walked : done.foldlM checkArtifact seen.paths = .ok paths)
      (copied : checkPath paths artifact = .ok path) :
      Written runtimeAbi models { ids := cut id :: seen.ids, paths := path :: paths }

theorem cut_short (id : Bytes) : (cut id).length < 80 :=
  (pathCopy 80 id).1.fits

theorem kept_texts {models : List Jval} {ids : List Bytes} (kept : ids = ((idsOf models).map cut).reverse) :
    ∀ id ∈ ids, id.length < 80 := by
  intro id is
  rw [kept, List.mem_reverse] at is
  obtain ⟨full, -, rfl⟩ := List.mem_map.mp is
  exact cut_short full

theorem written_fits {models : List Jval} {seen : Seen} (written : Written runtimeAbi models seen) : seen.Fits := by
  cases written with
  | start =>
    exact ⟨Nat.zero_le _, fun _ is => (List.not_mem_nil is).elim, Nat.zero_le _, fun _ is => (List.not_mem_nil is).elim⟩
  | id front checked taken =>
    have kept := models_walk kept_start checked
    obtain ⟨ids, -, room⟩ := ids_step kept taken
    exact ⟨room, kept_texts ids, kept.paths.room, fun path is => (kept.paths.safe path is).1⟩
  | path front checked taken listed first walked copied =>
    have kept := models_walk kept_start checked
    obtain ⟨ids, -, room⟩ := ids_step kept taken
    have paths := paths_step (artifacts_walk kept.paths walked) copied
    exact ⟨room, kept_texts ids, paths.room, fun path is => (paths.safe path is).1⟩

end Arrays

section Places

def place (cwd : List Bytes) (path : Bytes) : List Bytes :=
  resolve 0x2f (utf8 ".") (utf8 "..") (if path.head? = some 0x2f then [] else cwd) path

def destination (cwd : List Bytes) (home path : Bytes) : List Bytes :=
  place cwd (home ++ 0x2f :: path)

def homePlace (cwd : List Bytes) (home : Bytes) : List Bytes :=
  place cwd (home ++ [0x2f])

theorem segments_eq (path : Bytes) : segments path = names 0x2f path := by
  unfold segments names Spaced.pieces
  rw [List.splitOn_eq_splitOnP]
  refine List.filter_congr fun piece _ => ?_
  cases piece <;> rfl

theorem safe_iff : installPathIsSafe path = true ↔
    path.head? ≠ some 0x2f ∧ names 0x2f path ≠ [] ∧ ∀ name ∈ names 0x2f path, name ≠ utf8 "." ∧ name ≠ utf8 ".." := by
  unfold installPathIsSafe
  rw [segments_eq]
  simp only [Bool.and_eq_true, bne_iff_ne, ne_eq, List.all_eq_true, and_assoc]

theorem destination_eq (cwd : List Bytes) (home : Bytes) (safe : installPathIsSafe path = true) :
    destination cwd home path = homePlace cwd home ++ names 0x2f path := by
  obtain ⟨-, -, plain⟩ := safe_iff.mp safe
  have head : (home ++ 0x2f :: path).head? = (home ++ [0x2f]).head? := by
    cases home <;> rfl
  have directory (base : List Bytes) : resolve 0x2f (utf8 ".") (utf8 "..") base (home ++ [0x2f]) =
      resolve 0x2f (utf8 ".") (utf8 "..") base home := by
    rw [resolve_join]
    rfl
  unfold destination homePlace place
  rw [head, resolve_join, directory, resolve_plain plain]

theorem destination_same (cwd : List Bytes) (home : Bytes) {path' : Bytes} (safe : installPathIsSafe path = true)
    (safe' : installPathIsSafe path' = true) :
    destination cwd home path = destination cwd home path' ↔ squeeze 0x2f path = squeeze 0x2f path' := by
  rw [destination_eq cwd home safe, destination_eq cwd home safe', List.append_cancel_left_eq,
    squeeze_eq_iff (safe_iff.mp safe).1 (safe_iff.mp safe').1]

end Places

section Names

-- Two names that differ in front of the cut, in more than a slash for a hash.
def Apart (name name' : Bytes) : Prop :=
  ∃ i < 255, name[i]? ≠ name'[i]? ∧
    ¬((name[i]? = some 0x2f ∨ name[i]? = some 0x23) ∧ (name'[i]? = some 0x2f ∨ name'[i]? = some 0x23))

def flat (c : UInt8) : UInt8 :=
  if c = 0x2f then 0x23 else c

theorem flat_same (c d : Option UInt8) : c.map flat = d.map flat ↔
    c = d ∨ (c = some 0x2f ∨ c = some 0x23) ∧ (d = some 0x2f ∨ d = some 0x23) := by
  cases c with
  | none => cases d <;> simp
  | some c =>
    cases d with
    | none => simp
    | some d =>
      simp only [Option.map_some, Option.some_inj]
      unfold flat
      split <;> split <;> grind

theorem sanitize_at (name : Bytes) (i : Nat) : (sanitizeStagingName name)[i]? = if i < 255 then name[i]?.map flat else none := by
  unfold sanitizeStagingName
  rw [List.getElem?_take, List.getElem?_map]
  rfl

theorem sanitize_apart (name name' : Bytes) : sanitizeStagingName name ≠ sanitizeStagingName name' ↔ Apart name name' := by
  have same : sanitizeStagingName name = sanitizeStagingName name' ↔ ∀ i < 255, name[i]?.map flat = name'[i]?.map flat := by
    rw [List.ext_getElem?_iff]
    refine forall_congr' fun i => ?_
    rw [sanitize_at, sanitize_at]
    by_cases inside : i < 255
    · rw [if_pos inside, if_pos inside]
      exact ⟨fun same _ => same, fun same => same inside⟩
    · rw [if_neg inside, if_neg inside]
      exact ⟨fun _ here => absurd here inside, fun _ => rfl⟩
  rw [ne_eq, same]
  unfold Apart
  simp only [flat_same, not_forall, not_or]
  exact ⟨fun ⟨i, inside, apart⟩ => ⟨i, inside, apart⟩, fun ⟨i, inside, apart⟩ => ⟨i, inside, apart⟩⟩

end Names

section Gate

def Catalog.ids (catalog : Catalog) : List Bytes :=
  idsOf catalog.models

def Catalog.installPaths (catalog : Catalog) : List Bytes :=
  pathsOf (catalog.models.flatMap artifactsIn)

def stagingNames (entry : Jval) : List Bytes :=
  (artifactsOf entry).filterMap Artifact.stagingName

structure Catalog.Sound (catalog : Catalog) : Prop where
  ids : catalog.ids.Nodup
  below : ∀ cwd home, ∀ path ∈ catalog.installPaths, ∃ names, names ≠ [] ∧
    destination cwd home path = homePlace cwd home ++ names
  destinations : ∀ cwd home, (catalog.installPaths.map (destination cwd home)).Nodup
  staging : ∀ entry ∈ catalog.models, (stagingNames entry).Nodup
  staged : ∀ name, (sanitizeStagingName name).length < 256
  arrays : ∀ runtimeAbi seen, Written runtimeAbi catalog.models seen → seen.Fits

-- What a catalog has to bring along for that, as the checks do not look for it.
structure Catalog.Distinct (catalog : Catalog) : Prop where
  longIds : (catalog.ids.filter fun id => 80 ≤ id.length).Nodup
  spelled : catalog.installPaths.Pairwise fun path path' => squeeze 0x2f path ≠ squeeze 0x2f path'
  names : ∀ entry ∈ catalog.models, ((artifactsOf entry).filterMap Artifact.name).Pairwise Apart

theorem catalog_kept (catalog : Catalog) : ∃ seen, ModelsKept catalog.models seen := by
  obtain ⟨root, accepted⟩ := catalog
  unfold catalogValidate at accepted
  split at accepted
  · cases accepted
  cases abi : getStr root "runtime_abi" with
  | none =>
    rw [abi] at accepted
    cases accepted
  | some runtimeAbi =>
    rw [abi] at accepted
    dsimp only at accepted
    split at accepted
    · cases accepted
    cases listed : getArr root "models" with
    | none =>
      rw [listed] at accepted
      cases accepted
    | some models =>
      rw [listed] at accepted
      cases walked : models.foldlM (checkModel runtimeAbi) { ids := [], paths := [] } with
      | error reason =>
        change (models.foldlM (checkModel runtimeAbi) { ids := [], paths := [] }).bind _ = _ at accepted
        rw [walked] at accepted
        cases accepted
      | ok seen =>
        have kept := models_walk kept_start walked
        refine ⟨seen, ?_⟩
        rw [Catalog.models, listed]
        exact kept

-- Ids that a row holds whole are told apart; of the others only the rows were compared.
theorem ids_distinct {ids : List Bytes} (apart : ids.Pairwise fun old new => new ≠ cut old) :
    ids.Nodup ↔ (ids.filter fun id => 80 ≤ id.length).Nodup := by
  refine ⟨fun distinct => distinct.filter _, fun long => ?_⟩
  have both := (List.pairwise_filter.mp long).and apart
  refine both.imp fun {old new} told same => ?_
  obtain ⟨long, row⟩ := told
  by_cases wide : 80 ≤ old.length
  · exact long (decide_eq_true wide) (decide_eq_true (same ▸ wide)) same
  · exact row (same.symm.trans (path_copy_text (Nat.lt_of_not_le wide)).symm)

theorem destinations_distinct (cwd : List Bytes) (home : Bytes) (safe : ∀ path ∈ paths, installPathIsSafe path = true) :
    (paths.map (destination cwd home)).Nodup ↔ paths.Pairwise fun path path' => squeeze 0x2f path ≠ squeeze 0x2f path' := by
  rw [List.Nodup, List.pairwise_map]
  exact List.Pairwise.iff_of_mem fun is is' => not_congr (destination_same cwd home (safe _ is) (safe _ is'))

theorem staging_distinct (entry : Jval) :
    (stagingNames entry).Nodup ↔ ((artifactsOf entry).filterMap Artifact.name).Pairwise Apart := by
  have names : stagingNames entry = ((artifactsOf entry).filterMap Artifact.name).map sanitizeStagingName := by
    rw [List.map_filterMap]
    rfl
  rw [names, List.Nodup, List.pairwise_map]
  exact List.Pairwise.iff fun name name' => sanitize_apart name name'

-- An accepted catalog is sound exactly when its ids of a row's width or more are distinct, no two of its install paths are
-- alike but for spare slashes, and no two names in one model are alike up to the cut but for slashes and hashes.
theorem catalog_sound_iff (catalog : Catalog) : catalog.Sound ↔ catalog.Distinct := by
  obtain ⟨seen, kept⟩ := catalog_kept catalog
  have safe : ∀ path ∈ catalog.installPaths, installPathIsSafe path = true := by
    intro path is
    have listed : path ∈ seen.paths := by
      rw [kept.paths.listed, List.mem_reverse]
      exact is
    exact (kept.paths.safe path listed).2
  constructor
  · intro sound
    exact ⟨(ids_distinct kept.apart).mp sound.ids, (destinations_distinct [] [] safe).mp (sound.destinations [] []),
      fun entry is => (staging_distinct entry).mp (sound.staging entry is)⟩
  · intro distinct
    refine ⟨(ids_distinct kept.apart).mpr distinct.longIds, fun cwd home path is => ?_,
      fun cwd home => (destinations_distinct cwd home safe).mpr distinct.spelled,
      fun entry is => (staging_distinct entry).mpr (distinct.names entry is), fun name => ?_, fun _ _ => written_fits⟩
    · exact ⟨_, (safe_iff.mp (safe path is)).2.1, destination_eq cwd home (safe path is)⟩
    · exact Nat.lt_of_le_of_lt (List.length_take_le 255 _) (by decide)

def slashedArtifact (path : String) : Jval :=
  .obj [(utf8 "bytes", .num (ofRatio false 0 1)), (utf8 "sha256", .str (List.replicate 64 0x30)),
    (utf8 "install_path", .str (utf8 path))]

def slashedCatalog : Jval :=
  .obj [(utf8 "runtime_abi", .str (utf8 "1")), (utf8 "models", .arr [.obj [(utf8 "id", .str (utf8 "m")),
    (utf8 "backend_kind", .str (utf8 "browser_tts")), (utf8 "required_runtime_abi", .str (utf8 "1")),
    (utf8 "artifacts", .arr [slashedArtifact "m/a", slashedArtifact "m//a"])]])]

theorem slashed_catalog_accepted : catalogValidate slashedCatalog = .ok () := by
  decide +kernel

theorem slashed_catalog_unsound : ¬∀ root, ∀ accepted : catalogValidate root = .ok (), Catalog.Sound ⟨root, accepted⟩ := by
  intro all
  have sound := all slashedCatalog slashed_catalog_accepted
  have paths : Catalog.installPaths ⟨slashedCatalog, slashed_catalog_accepted⟩ = [utf8 "m/a", utf8 "m//a"] := by decide +kernel
  have distinct := sound.destinations [] []
  rw [paths] at distinct
  exact absurd distinct (by decide +kernel)

end Gate

end SamosaChat.Install
