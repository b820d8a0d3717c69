import SamosaChat.Json.Compose

set_option autoImplicit false

namespace SamosaChat.Preflight

open Utf8 Binary64 Decimal JsonMeaning
open Text hiding find
open Json hiding Value Chars Kids Fields

structure CString (cap : Nat) where
  text : Bytes
  fits : text.length < cap
  clean : (0 : UInt8) ∉ text

section Exclusions

def userExclusionMax : Nat := 16

def userExclusionNameMax : Nat := 64

def nameByte (c : UInt8) : Bool :=
  isAlpha c || isDigit c || c == 0x2e || c == 0x5f || c == 0x2d || c == 0x20

def normalized (name : Bytes) : Option Bytes :=
  if name.length = 0 ∨ userExclusionNameMax < name.length then none
  else if name.all nameByte = false then none
  else
    let lower := name.map toLower
    if lower.head?.any fun c => isLower c || isDigit c then some lower else none

def parseItem (exclusions : List Bytes) : Jval → Option (List Bytes)
  | .str name =>
    (normalized name).map fun name => if name ∈ exclusions then exclusions else exclusions ++ [name]
  | _ => none

def chutniParseUserExclusions : Option Jval → Option (List Bytes)
  | none => some []
  | some (.arr kids) => if userExclusionMax < kids.length then none else kids.foldlM parseItem []
  | some _ => none

def chutniAppendUserExclusions (exclusions : List Bytes) : Bytes :=
  array (exclusions.map quoted)

-- strcasecmp
def sameName (name name' : Bytes) : Bool :=
  name.map toLower == name'.map toLower

def isName (name : Bytes) : Jval → Bool
  | .str str => sameName str name
  | _ => false

def chutniRequestedExclusionsMatchIndex (policy : Option Jval) (exclusions : List Bytes) : Bool :=
  match policy.bind fun policy => jsonGet policy (utf8 "exclude_globs") with
  | none => exclusions.isEmpty
  | some (.arr kids) => kids.length == exclusions.length && exclusions.all fun name => kids.any (isName name)
  | some _ => false

end Exclusions

section Inventory

structure Skip where
  reason : CString 64
  count : Nat
  representative : CString 128

-- What chutni_preflight_inventory has read from the scan.
structure Inventory where
  regularFiles : Nat
  regularFileBytes : Nat
  skipped : Nat
  directoriesSeen : Nat
  directoriesEntered : Nat
  complete : Bool
  limitingReason : CString 64
  policyFingerprint : CString 65
  skipReasons : List Skip

def truth (boolean : Bool) : Bytes :=
  utf8 (if boolean then "true" else "false")

def skipText (skip : Skip) : Bytes :=
  object [member "reason" (quoted skip.reason.text), member "count" (decimal skip.count),
    member "representative_path" (quoted skip.representative.text)]

def inventoryText (inventory : Inventory) : Bytes :=
  object [member "regular_files" (decimal inventory.regularFiles), member "regular_file_bytes" (decimal inventory.regularFileBytes),
    member "skipped" (decimal inventory.skipped), member "directories_seen" (decimal inventory.directoriesSeen),
    member "directories_entered" (decimal inventory.directoriesEntered), member "complete" (truth inventory.complete),
    member "partial" (truth !inventory.complete), member "limiting_reason" (quoted inventory.limitingReason.text),
    member "policy_fingerprint" (quoted inventory.policyFingerprint.text),
    member "skip_reasons" (array (inventory.skipReasons.map skipText))]

end Inventory

section Writer

structure Answer where
  text : Bytes
  value : Jval
  document : Means text value

structure Host where
  -- The directory that a path leads to, with its path.
  realpath : Bytes → Option (CString 4096)
  inventory : CString 4096 → List Bytes → Option Inventory
  id : Option (CString 40)
  directory : Bool
  service : Bytes → Option Answer
  device : Nat
  inode : Nat
  writes : Bool

inductive Refusal
  | invalidExclusions
  | invalidPreflight
  | inventoryUnavailable
  | idGenerationFailed
  | chutniUnavailable
  | conflict (action : Bytes)
  | preflightFailed
deriving DecidableEq

structure Prepared where
  id : CString 40
  canonical : CString 4096
  exclusions : List Bytes
  inventory : Inventory
  status : Answer
  rebuildRequired : Bool

def isTrue : Option Jval → Bool
  | some (.bool boolean) => boolean
  | _ => false

def string : Option Jval → Option Bytes
  | some (.str str) => some str
  | _ => none

def folderPath (request : Jval) : Option Bytes :=
  if string (jsonGet request (utf8 "kind")) = some (utf8 "folder") then
    match jsonGet request (utf8 "roots") with
    | some (.arr [first]) => string (jsonGet first (utf8 "path"))
    | _ => none
  else none

def inventoryPolicyVersion : Double :=
  ofRatio false 2 1

def supportedPolicy (policy : Option Jval) : Bool :=
  match policy.bind fun policy => jsonGet policy (utf8 "inventory_policy_version") with
  | some (.num num) => num == inventoryPolicyVersion
  | _ => false

def rebuildRequired (status : Jval) (exclusions : List Bytes) : Bool :=
  let policy := jsonGet status (utf8 "root_policy")
  isTrue (jsonGet status (utf8 "root_authorized")) &&
    (!supportedPolicy policy || !chutniRequestedExclusionsMatchIndex policy exclusions)

def serviceArguments (canonical : Bytes) : Bytes :=
  object [member "path" (quoted canonical)]

def statusAction (status : Jval) : Option Bytes :=
  if isTrue (jsonGet status (utf8 "ok")) then string (jsonGet status (utf8 "action")) else none

def collisions : List Bytes :=
  ["path_collision", "unsupported_store", "invalid_store"].map utf8

def prepare (host : Host) (request : Jval) : Except Refusal Prepared :=
  match chutniParseUserExclusions (jsonGet request (utf8 "user_exclusions")) with
  | none => .error .invalidExclusions
  | some exclusions =>
    match (folderPath request).bind host.realpath with
    | none => .error .invalidPreflight
    | some canonical =>
      match host.inventory canonical exclusions with
      | none => .error .inventoryUnavailable
      | some inventory =>
        match host.id with
        | none => .error .idGenerationFailed
        | some id =>
          match if host.directory then host.service (serviceArguments canonical.text) else none with
          | none => .error .chutniUnavailable
          | some status =>
            match parsed status.text with
            | none => .error .chutniUnavailable
            | some value =>
              match statusAction value with
              | none => .error .chutniUnavailable
              | some action =>
                if action ∈ collisions then .error (.conflict action)
                else
                  .ok { id, canonical, exclusions, inventory, status, rebuildRequired := rebuildRequired value exclusions }

def mandatoryExclusions : List String :=
  [".git", ".svn", ".hg", "node_modules", ".cache", "__pycache__", ".venv", "venv", "env", "target", "build", "dist", "DerivedData",
    ".Trash", ".mypy_cache", ".pytest_cache", ".ruff_cache", "site-packages", ".next", ".nuxt", ".yarn", ".pnpm-store", ".gradle",
    "coverage", ".idea", "*.app", "*.bundle", "*.framework", "*.plugin", "*.xcodeproj", "*.xcworkspace", "*.photoslibrary"]

def markerExclusions : List String :=
  ["directory containing pyvenv.cfg"]

def policyText (exclusions : List Bytes) : Bytes :=
  object [member "include_hidden" (truth false), member "cross_filesystems" (truth false), member "maximum_depth" (decimal 32),
    member "maximum_files" (decimal 10000), member "maximum_directories" (decimal 5000), member "maximum_seconds" (decimal 20),
    member "maximum_file_bytes" (decimal 67108864), member "maximum_eligible_bytes" (decimal 2147483648),
    member "follow_symlinks" (truth false), member "mandatory_exclusions" (array (mandatoryExclusions.map fun name => quoted (utf8 name))),
    member "marker_exclusions" (array (markerExclusions.map fun name => quoted (utf8 name))),
    member "user_exclusions" (chutniAppendUserExclusions exclusions)]

def recordText (host : Host) (p : Prepared) : Bytes :=
  object [member "preflight_id" (quoted p.id.text), member "rebuild_required" (truth p.rebuildRequired),
    member "kind" (quoted (utf8 "folder")), member "canonical_root" (quoted p.canonical.text),
    member "volume_identity" (quoted (decimal host.device)),
    member "root_file_identity" (quoted (decimal host.device ++ 0x3a :: decimal host.inode)),
    member "policy_fingerprint" (quoted p.inventory.policyFingerprint.text), member "effective_policy" (policyText p.exclusions),
    member "chutni" p.status.text, member "inventory" (inventoryText p.inventory), member "warnings" (array [])] ++ [0x0a]

def preflightLimit : Nat := 8192

def readFileLimit (limit : Nat) (file : Bytes) : Option Bytes :=
  if limit < file.length then none else some file

inductive Response
  | refused (refusal : Refusal)
  | granted (saved : Bytes)
  | silent
deriving DecidableEq

structure Outcome where
  file : Option Bytes
  response : Response

def chutniPreflight (host : Host) (request : Jval) : Outcome :=
  match prepare host request with
  | .error refusal => { file := none, response := .refused refusal }
  | .ok p =>
    if host.writes then
      { file := some (recordText host p)
        response :=
          match readFileLimit preflightLimit (recordText host p) with
          | some saved => .granted saved
          | none => .silent }
    else { file := none, response := .refused .preflightFailed }

end Writer

section Reader

structure Saved where
  canonical : Bytes
  fingerprint : Bytes
  exclusions : List Bytes
deriving DecidableEq

def scopePreflight (file : Bytes) : Option Saved :=
  (readFileLimit preflightLimit file).bind fun preflight => (parsed preflight).bind fun p =>
    (string (jsonGet p (utf8 "kind"))).bind fun _ =>
      (string (jsonGet p (utf8 "canonical_root"))).bind fun canonical =>
        (string (jsonGet p (utf8 "policy_fingerprint"))).bind fun fingerprint =>
          (chutniParseUserExclusions ((jsonGet p (utf8 "effective_policy")).bind fun policy =>
            jsonGet policy (utf8 "user_exclusions"))).map fun exclusions => { canonical, fingerprint, exclusions }

end Reader

variable {exclusions : List Bytes}

section Normal

def Normal (name : Bytes) : Prop :=
  normalized name = some name

theorem lower_byte : ∀ c : UInt8, nameByte c = true →
    nameByte (toLower c) = true ∧ toLower (toLower c) = toLower c ∧ toLower c ≠ 0 ∧ (toLower c).toNat < 0x80 :=
  every_byte (by decide +kernel)

theorem normalized_normal {name kept : Bytes} (keeps : normalized name = some kept) :
    Normal kept ∧ ∀ c ∈ kept, c ≠ 0 ∧ c.toNat < 0x80 := by
  unfold normalized at keeps
  obtain ⟨wrong, keeps⟩ := past_guard keeps nofun
  obtain ⟨other, keeps⟩ := past_guard keeps nofun
  dsimp only at keeps
  have plain : ∀ c ∈ name, nameByte c = true := by simpa using other
  have again : (name.map toLower).map toLower = name.map toLower := by
    rw [List.map_map]
    exact List.map_congr_left fun c is => (lower_byte c (plain c is)).2.1
  have still : ¬(name.map toLower).all nameByte = false := by
    simpa using fun c is => (lower_byte c (plain c is)).1
  obtain ⟨starts, keeps⟩ := within_guard keeps nofun
  cases keeps
  refine ⟨?_, fun c is => ?_⟩
  · unfold Normal normalized
    rw [List.length_map, if_neg wrong, if_neg still]
    dsimp only
    rw [again, if_pos starts]
  · obtain ⟨d, is', rfl⟩ := List.mem_map.mp is
    exact (lower_byte d (plain d is')).2.2

theorem normal_text {name : Bytes} (normal : Normal name) : StringText name := by
  have plain := (normalized_normal normal).2
  exact ⟨ascii_valid fun c is => (plain c is).2, fun nul => (plain 0 nul).1 rfl⟩

structure Listed (exclusions : List Bytes) : Prop where
  normal : ∀ name ∈ exclusions, Normal name
  distinct : exclusions.Nodup

theorem item_listed {out : List Bytes} {item : Jval} (listed : Listed exclusions)
    (read : parseItem exclusions item = some out) : Listed out ∧ out.length ≤ exclusions.length + 1 := by
  cases item with
  | str str =>
    obtain ⟨name, keeps, rfl⟩ := Option.map_eq_some_iff.mp read
    by_cases old : name ∈ exclusions
    · rw [if_pos old]
      exact ⟨listed, Nat.le_succ _⟩
    · rw [if_neg old]
      have normal := (normalized_normal keeps).1
      refine ⟨⟨fun other is => ?_, ?_⟩, by rw [List.length_append, List.length_singleton]⟩
      · rcases List.mem_append.mp is with is | is
        · exact listed.normal other is
        · rw [List.mem_singleton.mp is]
          exact normal
      · refine List.nodup_append.mpr ⟨listed.distinct, List.nodup_singleton _, fun other is last same => ?_⟩
        intro equal
        rw [List.mem_singleton.mp same] at equal
        exact old (equal ▸ is)
  | _ => cases read

theorem items_listed (kids : List Jval) : ∀ exclusions out : List Bytes, Listed exclusions →
    kids.foldlM parseItem exclusions = some out → Listed out ∧ out.length ≤ exclusions.length + kids.length := by
  induction kids with
  | nil =>
    intro exclusions out listed read
    cases read
    exact ⟨listed, Nat.le_refl _⟩
  | cons item kids ih =>
    intro exclusions out listed read
    rw [List.foldlM_cons] at read
    obtain ⟨middle, first, rest⟩ := Option.bind_eq_some_iff.mp read
    obtain ⟨listed', one⟩ := item_listed listed first
    obtain ⟨listed'', more⟩ := ih middle out listed' rest
    rw [List.length_cons]
    exact ⟨listed'', by omega⟩

theorem parse_listed {value : Option Jval} (read : chutniParseUserExclusions value = some exclusions) :
    Listed exclusions ∧ exclusions.length ≤ userExclusionMax := by
  have none_ : Listed [] := ⟨fun name is => (List.not_mem_nil is).elim, List.nodup_nil⟩
  unfold chutniParseUserExclusions at read
  split at read
  · cases read
    exact ⟨none_, Nat.zero_le _⟩
  · split at read
    · cases read
    · next few =>
        obtain ⟨listed, short⟩ := items_listed _ [] exclusions none_ read
        rw [List.length_nil] at short
        exact ⟨listed, by omega⟩
  · cases read

theorem items_again (exclusions : List Bytes) : ∀ before : List Bytes, Listed (before ++ exclusions) →
    (exclusions.map Jval.str).foldlM parseItem before = some (before ++ exclusions) := by
  induction exclusions with
  | nil =>
    intro before _
    rw [List.append_nil]
    rfl
  | cons name rest ih =>
    intro before listed
    have new : name ∉ before := by
      intro old
      exact (List.nodup_append.mp listed.distinct).2.2 name old name List.mem_cons_self rfl
    have step : parseItem before (.str name) = some (before ++ [name]) := by
      have normal : normalized name = some name := listed.normal name (List.mem_append_right _ List.mem_cons_self)
      rw [parseItem, normal, Option.map_some, if_neg new]
    have later := ih (before ++ [name]) (by rw [List.append_assoc]; exact listed)
    rw [List.append_assoc] at later
    rw [List.map_cons, List.foldlM_cons, step]
    exact later

theorem parse_again (listed : Listed exclusions) (few : exclusions.length ≤ userExclusionMax) :
    chutniParseUserExclusions (some (.arr (exclusions.map Jval.str))) = some exclusions := by
  change (if userExclusionMax < (exclusions.map Jval.str).length then none else (exclusions.map Jval.str).foldlM parseItem []) = _
  rw [List.length_map, if_neg (Nat.not_lt.mpr few)]
  exact items_again exclusions [] listed

theorem append_means (listed : Listed exclusions) :
    Means (chutniAppendUserExclusions exclusions) (.arr (exclusions.map Jval.str)) :=
  means_array exclusions fun name is => means_quoted (normal_text (listed.normal name is))

theorem listed_cut (listed : Listed exclusions) :
    mapped cstr (.arr (exclusions.map Jval.str)) = .arr (exclusions.map Jval.str) := by
  have kids : ∀ names : List Bytes, (∀ name ∈ names, Normal name) → mappedKids cstr (names.map Jval.str) = names.map Jval.str := by
    intro names normal
    induction names with
    | nil => rfl
    | cons name names ih =>
      rw [List.map_cons, mappedKids, mapped, cstr_self (normal_text (normal name List.mem_cons_self)).2,
        ih fun other is => normal other (List.mem_cons_of_mem _ is)]
  rw [mapped, kids exclusions listed.normal]

end Normal

variable {host : Host} {p : Prepared}

section Record

theorem means_names (names : List String) (clean : ∀ name ∈ names, (0 : UInt8) ∉ utf8 name) :
    Means (array (names.map fun name => quoted (utf8 name))) (.arr (names.map fun name => .str (utf8 name))) :=
  means_array names fun name is => means_quoted (literal_text (clean name is))

def number (n : Nat) : Jval :=
  .num (ofScaled false 10 n 0)

def skipItems (skip : Skip) : List Item :=
  [("reason", quoted skip.reason.text, .str (lossy skip.reason.text)), ("count", decimal skip.count, number skip.count),
    ("representative_path", quoted skip.representative.text, .str (lossy skip.representative.text))]

def skipValue (skip : Skip) : Jval :=
  .obj ((skipItems skip).map fun item => (utf8 item.1, item.2.2))

theorem names_clean : (∀ key ∈ ["reason", "count", "representative_path"], (0 : UInt8) ∉ utf8 key) ∧
    (∀ key ∈ ["regular_files", "regular_file_bytes", "skipped", "directories_seen", "directories_entered", "complete",
      "partial", "limiting_reason", "policy_fingerprint", "skip_reasons"], (0 : UInt8) ∉ utf8 key) ∧
    (∀ key ∈ ["include_hidden", "cross_filesystems", "maximum_depth", "maximum_files", "maximum_directories", "maximum_seconds",
      "maximum_file_bytes", "maximum_eligible_bytes", "follow_symlinks", "mandatory_exclusions", "marker_exclusions",
      "user_exclusions"], (0 : UInt8) ∉ utf8 key) ∧
    ∀ key ∈ ["preflight_id", "rebuild_required", "kind", "canonical_root", "volume_identity", "root_file_identity",
      "policy_fingerprint", "effective_policy", "chutni", "inventory", "warnings"], (0 : UInt8) ∉ utf8 key := by
  decide +kernel

theorem skip_means (skip : Skip) : Means (skipText skip) (skipValue skip) := by
  refine means_members (skipItems skip) names_clean.1 ?_
  simp only [skipItems, List.forall_mem_cons]
  exact ⟨means_lossy _, means_decimal _, means_lossy _, fun _ is => (List.not_mem_nil is).elim⟩

def inventoryItems (inventory : Inventory) : List Item :=
  [("regular_files", decimal inventory.regularFiles, number inventory.regularFiles),
    ("regular_file_bytes", decimal inventory.regularFileBytes, number inventory.regularFileBytes),
    ("skipped", decimal inventory.skipped, number inventory.skipped),
    ("directories_seen", decimal inventory.directoriesSeen, number inventory.directoriesSeen),
    ("directories_entered", decimal inventory.directoriesEntered, number inventory.directoriesEntered),
    ("complete", truth inventory.complete, .bool inventory.complete), ("partial", truth !inventory.complete, .bool !inventory.complete),
    ("limiting_reason", quoted inventory.limitingReason.text, .str (lossy inventory.limitingReason.text)),
    ("policy_fingerprint", quoted inventory.policyFingerprint.text, .str (lossy inventory.policyFingerprint.text)),
    ("skip_reasons", array (inventory.skipReasons.map skipText), .arr (inventory.skipReasons.map skipValue))]

def inventoryValue (inventory : Inventory) : Jval :=
  .obj ((inventoryItems inventory).map fun item => (utf8 item.1, item.2.2))

theorem inventory_means (inventory : Inventory) : Means (inventoryText inventory) (inventoryValue inventory) := by
  refine means_members (inventoryItems inventory) names_clean.2.1 ?_
  simp only [inventoryItems, List.forall_mem_cons]
  exact ⟨means_decimal _, means_decimal _, means_decimal _, means_decimal _, means_decimal _, means_bool _, means_bool _,
    means_lossy _, means_lossy _, means_array _ fun skip _ => skip_means skip, fun _ is => (List.not_mem_nil is).elim⟩

def policyItems (exclusions : List Bytes) : List Item :=
  [("include_hidden", truth false, .bool false), ("cross_filesystems", truth false, .bool false),
    ("maximum_depth", decimal 32, number 32), ("maximum_files", decimal 10000, number 10000),
    ("maximum_directories", decimal 5000, number 5000), ("maximum_seconds", decimal 20, number 20),
    ("maximum_file_bytes", decimal 67108864, number 67108864), ("maximum_eligible_bytes", decimal 2147483648, number 2147483648),
    ("follow_symlinks", truth false, .bool false),
    ("mandatory_exclusions", array (mandatoryExclusions.map fun name => quoted (utf8 name)),
      .arr (mandatoryExclusions.map fun name => .str (utf8 name))),
    ("marker_exclusions", array (markerExclusions.map fun name => quoted (utf8 name)),
      .arr (markerExclusions.map fun name => .str (utf8 name))),
    ("user_exclusions", chutniAppendUserExclusions exclusions, .arr (exclusions.map Jval.str))]

def policyValue (exclusions : List Bytes) : Jval :=
  .obj ((policyItems exclusions).map fun item => (utf8 item.1, item.2.2))

theorem policy_means (listed : Listed exclusions) : Means (policyText exclusions) (policyValue exclusions) := by
  refine means_members (policyItems exclusions) names_clean.2.2.1 ?_
  simp only [policyItems, List.forall_mem_cons]
  exact ⟨means_bool _, means_bool _, means_decimal _, means_decimal _, means_decimal _, means_decimal _, means_decimal _,
    means_decimal _, means_bool _, means_names _ (by decide), means_names _ (by decide), append_means listed,
    fun _ is => (List.not_mem_nil is).elim⟩

def identity (host : Host) : Bytes :=
  decimal host.device ++ 0x3a :: decimal host.inode

def recordItems (host : Host) (p : Prepared) : List Item :=
  [("preflight_id", quoted p.id.text, .str (lossy p.id.text)), ("rebuild_required", truth p.rebuildRequired, .bool p.rebuildRequired),
    ("kind", quoted (utf8 "folder"), .str (lossy (utf8 "folder"))),
    ("canonical_root", quoted p.canonical.text, .str (lossy p.canonical.text)),
    ("volume_identity", quoted (decimal host.device), .str (lossy (decimal host.device))),
    ("root_file_identity", quoted (identity host), .str (lossy (identity host))),
    ("policy_fingerprint", quoted p.inventory.policyFingerprint.text, .str (lossy p.inventory.policyFingerprint.text)),
    ("effective_policy", policyText p.exclusions, policyValue p.exclusions), ("chutni", p.status.text, p.status.value),
    ("inventory", inventoryText p.inventory, inventoryValue p.inventory), ("warnings", array [], .arr [])]

def recordFields (host : Host) (p : Prepared) : List (Bytes × Jval) :=
  (recordItems host p).map fun item => (utf8 item.1, item.2.2)

theorem record_means {host : Host} {p : Prepared} (listed : Listed p.exclusions) :
    Means (recordText host p) (.obj (recordFields host p)) := by
  refine means_behind (means_members (recordItems host p) names_clean.2.2.2 ?_) (by decide)
  simp only [recordItems, List.forall_mem_cons]
  exact ⟨means_lossy _, means_bool _, means_lossy _, means_lossy _, means_lossy _, means_lossy _, means_lossy _, policy_means listed,
    p.status.document, inventory_means _, @means_array Bytes id (fun _ => .null) [] fun _ is => (List.not_mem_nil is).elim,
    fun _ is => (List.not_mem_nil is).elim⟩

theorem record_clean (host : Host) (p : Prepared) : ∀ field ∈ recordFields host p, (0 : UInt8) ∉ field.1 := by
  intro field is
  obtain ⟨item, is', rfl⟩ := List.mem_map.mp is
  exact names_clean.2.2.2 _ (List.mem_map_of_mem is')

theorem policy_exclusions (exclusions : List Bytes) :
    find (utf8 "user_exclusions") ((policyItems exclusions).map fun item => (utf8 item.1, item.2.2)) =
      some (.arr (exclusions.map Jval.str)) := by
  simp only [policyItems, List.map_cons, find]
  rw [if_neg (by decide), if_neg (by decide), if_neg (by decide), if_neg (by decide), if_neg (by decide), if_neg (by decide),
    if_neg (by decide), if_neg (by decide), if_neg (by decide), if_neg (by decide), if_neg (by decide), if_pos trivial]

theorem cstring_lossy {cap : Nat} (str : CString cap) : cstr (lossy str.text) = lossy str.text :=
  cstr_self (lossy_clean str.clean)

theorem record_read (listed : Listed p.exclusions) (few : p.exclusions.length ≤ userExclusionMax)
    (fits : (recordText host p).length ≤ preflightLimit) :
    scopePreflight (recordText host p) = some
      { canonical := lossy p.canonical.text, fingerprint := lossy p.inventory.policyFingerprint.text, exclusions := p.exclusions } := by
  have value := means_parsed (@record_means host p listed)
  have get (key : Bytes) : jsonGet (mapped cstr (.obj (recordFields host p))) key = (find key (recordFields host p)).map (mapped cstr) :=
    find_mapped (record_clean host p)
  have kind : find (utf8 "kind") (recordFields host p) = some (.str (lossy (utf8 "folder"))) := by
    simp only [recordFields, recordItems, List.map_cons, find]
    rw [if_neg (by decide), if_neg (by decide), if_pos trivial]
  have canonical : find (utf8 "canonical_root") (recordFields host p) = some (.str (lossy p.canonical.text)) := by
    simp only [recordFields, recordItems, List.map_cons, find]
    rw [if_neg (by decide), if_neg (by decide), if_neg (by decide), if_pos trivial]
  have fingerprint : find (utf8 "policy_fingerprint") (recordFields host p) = some (.str (lossy p.inventory.policyFingerprint.text)) := by
    simp only [recordFields, recordItems, List.map_cons, find]
    rw [if_neg (by decide), if_neg (by decide), if_neg (by decide), if_neg (by decide), if_neg (by decide), if_neg (by decide),
      if_pos trivial]
  have policy : find (utf8 "effective_policy") (recordFields host p) = some (policyValue p.exclusions) := by
    simp only [recordFields, recordItems, List.map_cons, find]
    rw [if_neg (by decide), if_neg (by decide), if_neg (by decide), if_neg (by decide), if_neg (by decide), if_neg (by decide),
      if_neg (by decide), if_pos trivial]
  have exclusions : jsonGet (mapped cstr (policyValue p.exclusions)) (utf8 "user_exclusions") =
      some (.arr (p.exclusions.map Jval.str)) := by
    have clean : ∀ field ∈ (policyItems p.exclusions).map fun item => (utf8 item.1, item.2.2), (0 : UInt8) ∉ field.1 := by
      intro field is
      obtain ⟨item, is', rfl⟩ := List.mem_map.mp is
      exact names_clean.2.2.1 _ (List.mem_map_of_mem is')
    have found := @find_mapped (utf8 "user_exclusions") _ clean
    rw [policy_exclusions, Option.map_some, listed_cut listed] at found
    exact found
  unfold scopePreflight readFileLimit
  rw [if_neg (Nat.not_lt.mpr fits), Option.bind_some, value, Option.bind_some, get, get, get, get, kind, canonical, fingerprint, policy]
  simp only [Option.map_some, mapped, string, Option.bind_some, exclusions, parse_again listed few, cstring_lossy]

end Record

section Size

theorem commas_sum (text : Bytes) (texts : List Bytes) :
    (commas (text :: texts)).length + 1 = ((text :: texts).map fun text => text.length + 1).sum := by
  induction texts generalizing text with
  | nil => rfl
  | cons next texts ih =>
    have later := ih next
    rw [commas, List.length_append, List.length_cons, List.map_cons, List.sum_cons]
    omega

theorem object_size (text : Bytes) (texts : List Bytes) :
    (object (text :: texts)).length = ((text :: texts).map fun text => text.length + 1).sum + 1 := by
  have sum := commas_sum text texts
  rw [object, List.length_append, List.length_cons, List.length_singleton]
  omega

theorem member_size (key : String) (text : Bytes) : (member key text).length = (quoted (utf8 key)).length + text.length + 1 := by
  rw [member, List.length_append, List.length_cons]
  rfl

def recordRoom (host : Host) (p : Prepared) : Nat :=
  p.status.text.length + (quoted p.canonical.text).length + (inventoryText p.inventory).length +
    (chutniAppendUserExclusions p.exclusions).length + (quoted p.inventory.policyFingerprint.text).length + (quoted p.id.text).length +
    (truth p.rebuildRequired).length + (quoted (decimal host.device)).length + (quoted (identity host)).length

theorem last_size (front : List Bytes) (key : String) (text other : Bytes) :
    (object (front ++ [member key text])).length + other.length = (object (front ++ [member key other])).length + text.length := by
  cases front <;>
    simp only [List.nil_append, List.cons_append, object_size, List.map_cons, List.map_append, List.sum_cons, List.sum_append,
      List.map_nil, List.sum_nil, member_size] <;>
    omega

theorem policy_size (exclusions : List Bytes) :
    (policyText exclusions).length = (chutniAppendUserExclusions exclusions).length + 674 := by
  have fixed : (policyText []).length = 676 ∧ (chutniAppendUserExclusions []).length = 2 := by decide +kernel
  have same : (policyText exclusions).length + (chutniAppendUserExclusions []).length =
      (policyText []).length + (chutniAppendUserExclusions exclusions).length :=
    last_size [_, _, _, _, _, _, _, _, _, _, _] _ _ _
  rw [fixed.1, fixed.2] at same
  omega

theorem record_size (host : Host) (p : Prepared) : (recordText host p).length = recordRoom host p + 866 := by
  have names : (quoted (utf8 "preflight_id")).length = 14 ∧ (quoted (utf8 "rebuild_required")).length = 18 ∧
      (quoted (utf8 "kind")).length = 6 ∧ (quoted (utf8 "canonical_root")).length = 16 ∧
      (quoted (utf8 "volume_identity")).length = 17 ∧ (quoted (utf8 "root_file_identity")).length = 20 ∧
      (quoted (utf8 "policy_fingerprint")).length = 20 ∧ (quoted (utf8 "effective_policy")).length = 18 ∧
      (quoted (utf8 "chutni")).length = 8 ∧ (quoted (utf8 "inventory")).length = 11 ∧ (quoted (utf8 "warnings")).length = 10 ∧
      (quoted (utf8 "folder")).length = 8 ∧ (array []).length = 2 := by decide +kernel
  have policy := policy_size p.exclusions
  unfold recordText recordRoom identity
  simp only [List.length_append, object_size, List.map_cons, List.map_nil, List.sum_cons, List.sum_nil, member_size, policy, names,
    List.length_singleton]
  omega

end Size

section Use

-- A preflight that is granted can be used, one that is written is granted, and a list of exclusions is written and read back as
-- it is.
structure Usable (host : Host) (request : Jval) : Prop where
  readBack : ∀ saved, (chutniPreflight host request).response = .granted saved →
    ∃ p file, prepare host request = .ok p ∧ (chutniPreflight host request).file = some file ∧
      scopePreflight file = some
        { canonical := p.canonical.text, fingerprint := p.inventory.policyFingerprint.text, exclusions := p.exclusions }
  answered : ∀ file, (chutniPreflight host request).file = some file → ∃ saved, (chutniPreflight host request).response = .granted saved
  settled : ∀ value exclusions, chutniParseUserExclusions value = some exclusions →
    ∃ again, parsed (chutniAppendUserExclusions exclusions) = some again ∧ chutniParseUserExclusions (some again) = some exclusions

-- What the inputs have to be like for that where there is a record to write: the parts that vary take no more than the limit
-- leaves, and the path and the fingerprint are UTF-8.
def Admissible (host : Host) (request : Jval) : Prop :=
  ∀ p, prepare host request = .ok p → host.writes = true →
    recordRoom host p ≤ 7326 ∧ Valid p.canonical.text ∧ Valid p.inventory.policyFingerprint.text

theorem exclusions_settled {value : Option Jval}
    (read : chutniParseUserExclusions value = some exclusions) : ∃ again, parsed (chutniAppendUserExclusions exclusions) = some again ∧
      chutniParseUserExclusions (some again) = some exclusions := by
  obtain ⟨listed, few⟩ := parse_listed read
  refine ⟨_, means_parsed (append_means listed), ?_⟩
  rw [listed_cut listed]
  exact parse_again listed few

theorem prepared_listed {request : Jval} (ready : prepare host request = .ok p) :
    Listed p.exclusions ∧ p.exclusions.length ≤ userExclusionMax := by
  unfold prepare at ready
  cases read : chutniParseUserExclusions (jsonGet request (utf8 "user_exclusions")) with
  | none =>
    rw [read] at ready
    cases ready
  | some exclusions =>
    rw [read] at ready
    dsimp only at ready
    have kept : p.exclusions = exclusions := by
      repeat' split at ready
      all_goals first | cases ready; rfl | cases ready
    rw [kept]
    exact parse_listed read

theorem read_limited (host : Host) (p : Prepared) : readFileLimit preflightLimit (recordText host p) =
    if recordRoom host p ≤ 7326 then some (recordText host p) else none := by
  have size := record_size host p
  have limit : preflightLimit = 8192 := rfl
  unfold readFileLimit
  by_cases room : recordRoom host p ≤ 7326
  · rw [if_neg (by omega), if_pos room]
  · rw [if_pos (by omega), if_neg room]

theorem written_outcome {request : Jval} (ready : prepare host request = .ok p)
    (writes : host.writes = true) : chutniPreflight host request =
      { file := some (recordText host p), response := if recordRoom host p ≤ 7326 then .granted (recordText host p) else .silent } := by
  unfold chutniPreflight
  rw [ready]
  dsimp only
  rw [if_pos writes, read_limited]
  by_cases room : recordRoom host p ≤ 7326
  · rw [if_pos room, if_pos room]
  · rw [if_neg room, if_neg room]

theorem unwritten_outcome {host : Host} {request : Jval} (none_ : ∀ p, prepare host request = .ok p → host.writes = false) :
    ∃ refusal, chutniPreflight host request = { file := none, response := .refused refusal } := by
  unfold chutniPreflight
  cases ready : prepare host request with
  | error refusal => exact ⟨refusal, rfl⟩
  | ok p =>
    dsimp only
    rw [none_ p ready]
    exact ⟨.preflightFailed, rfl⟩

theorem lossy_self {text : Bytes} : lossy text = text ↔ Valid text :=
  ⟨fun same => same ▸ valid_lossy text, lossy_valid⟩

-- A request is served as it should exactly when its inputs are admissible.
theorem preflight_usable_iff (host : Host) (request : Jval) : Usable host request ↔ Admissible host request := by
  constructor
  · intro usable p ready writes
    have outcome := written_outcome ready writes
    have room : recordRoom host p ≤ 7326 := by
      obtain ⟨saved, granted⟩ := usable.answered _ (congrArg Outcome.file outcome)
      by_contra much
      rw [outcome, if_neg much] at granted
      cases granted
    rw [if_pos room] at outcome
    obtain ⟨p', file, ready', filed, read⟩ := usable.readBack _ (congrArg Outcome.response outcome)
    rw [ready] at ready'
    cases ready'
    rw [outcome] at filed
    cases filed
    obtain ⟨listed, few⟩ := prepared_listed ready
    have size := record_size host p
    rw [record_read listed few (by rw [size]; exact Nat.add_le_add_right room 866)] at read
    obtain ⟨canonical, fingerprint, -⟩ := Saved.mk.inj (Option.some.inj read)
    exact ⟨room, lossy_self.mp canonical, lossy_self.mp fingerprint⟩
  · intro admissible
    by_cases written : ∃ p, prepare host request = .ok p ∧ host.writes = true
    · obtain ⟨p, ready, writes⟩ := written
      obtain ⟨room, canonical, fingerprint⟩ := admissible p ready writes
      obtain ⟨listed, few⟩ := prepared_listed ready
      have outcome := written_outcome ready writes
      have size := record_size host p
      have read := record_read listed few (by rw [size]; exact Nat.add_le_add_right room 866)
      rw [if_pos room] at outcome
      rw [lossy_valid canonical, lossy_valid fingerprint] at read
      exact ⟨fun _ _ => ⟨p, _, ready, congrArg Outcome.file outcome, read⟩,
        fun _ _ => ⟨_, congrArg Outcome.response outcome⟩, fun _ _ => exclusions_settled⟩
    · obtain ⟨refusal, outcome⟩ := @unwritten_outcome host request fun p ready => by
        by_contra writes
        exact written ⟨p, ready, by simpa using writes⟩
      refine ⟨fun saved granted => ?_, fun file filed => ?_, fun _ _ => exclusions_settled⟩
      · rw [outcome] at granted
        cases granted
      · rw [outcome] at filed
        cases filed

def longNote : Bytes :=
  List.replicate 8192 0x78

def longItems : List Item :=
  [("ok", truth true, .bool true), ("action", quoted (utf8 "create"), .str (utf8 "create")),
    ("note", 0x22 :: longNote ++ [0x22], .str longNote)]

theorem long_names_clean : ∀ key ∈ ["ok", "action", "note"], (0 : UInt8) ∉ utf8 key := by
  decide

def longAnswer : Answer where
  text := object (longItems.map fun item => member item.1 item.2.1)
  value := .obj (longItems.map fun item => (utf8 item.1, item.2.2))
  document := by
    refine means_members longItems long_names_clean ?_
    simp only [longItems, List.forall_mem_cons]
    refine ⟨means_bool true, means_quoted (literal_text (by decide)), means_plain fun c is => ?_, fun _ is => (List.not_mem_nil is).elim⟩
    rw [List.eq_of_mem_replicate is]
    decide

def emptyInventory : Inventory where
  regularFiles := 0
  regularFileBytes := 0
  skipped := 0
  directoriesSeen := 1
  directoriesEntered := 1
  complete := true
  limitingReason := ⟨utf8 "none", by decide, by decide⟩
  policyFingerprint := ⟨utf8 "f", by decide, by decide⟩
  skipReasons := []

def longHost : Host where
  realpath _ := some ⟨utf8 "/a", by decide, by decide⟩
  inventory _ _ := some emptyInventory
  id := some ⟨utf8 "p", by decide, by decide⟩
  directory := true
  service _ := some longAnswer
  device := 1
  inode := 2
  writes := true

def folderRequest : Jval :=
  .obj [(utf8 "kind", .str (utf8 "folder")), (utf8 "roots", .arr [.obj [(utf8 "path", .str (utf8 "/a"))]])]

theorem long_action : statusAction (mapped cstr longAnswer.value) = some (utf8 "create") := by
  have clean : ∀ field ∈ longItems.map fun item => (utf8 item.1, item.2.2), (0 : UInt8) ∉ field.1 := by
    intro field is
    obtain ⟨item, is', rfl⟩ := List.mem_map.mp is
    exact long_names_clean _ (List.mem_map_of_mem is')
  have get (key : Bytes) : jsonGet (mapped cstr longAnswer.value) key =
      (find key (longItems.map fun item => (utf8 item.1, item.2.2))).map (mapped cstr) := find_mapped clean
  have ok : find (utf8 "ok") (longItems.map fun item => (utf8 item.1, item.2.2)) = some (.bool true) := rfl
  have action : find (utf8 "action") (longItems.map fun item => (utf8 item.1, item.2.2)) = some (.str (utf8 "create")) := by
    simp only [longItems, List.map_cons, find]
    rw [if_neg (by decide), if_pos trivial]
  unfold statusAction
  rw [get, get, ok, action]
  decide

theorem prepare_ready {request value : Jval} {root action : Bytes} {canonical : CString 4096}
    {inventory : Inventory} {id : CString 40} {status : Answer}
    (excludes : chutniParseUserExclusions (jsonGet request (utf8 "user_exclusions")) = some exclusions)
    (path : folderPath request = some root) (leads : host.realpath root = some canonical)
    (scanned : host.inventory canonical exclusions = some inventory) (named : host.id = some id) (directory : host.directory = true)
    (answered : host.service (serviceArguments canonical.text) = some status) (read : parsed status.text = some value)
    (acts : statusAction value = some action) (other : action ∉ collisions) :
    prepare host request =
      .ok { id, canonical, exclusions, inventory, status, rebuildRequired := rebuildRequired value exclusions } := by
  unfold prepare
  rw [excludes, path, Option.bind_some]
  dsimp only
  rw [leads]
  dsimp only
  rw [scanned]
  dsimp only
  rw [named]
  dsimp only
  rw [if_pos directory, answered]
  dsimp only
  rw [read]
  dsimp only
  rw [acts]
  dsimp only
  rw [if_neg other]

theorem long_prepared : ∃ p, prepare longHost folderRequest = .ok p ∧ p.status = longAnswer := by
  have excludes : chutniParseUserExclusions (jsonGet folderRequest (utf8 "user_exclusions")) = some [] := by decide
  have path : folderPath folderRequest = some (utf8 "/a") := by decide
  exact ⟨_, prepare_ready excludes path rfl rfl rfl rfl rfl (means_parsed longAnswer.document) long_action (by decide), rfl⟩

theorem long_answer_unusable : ¬∀ host request, Usable host request := by
  intro all
  obtain ⟨p, ready, status⟩ := long_prepared
  have long : 8192 ≤ p.status.text.length := by
    rw [status]
    change 8192 ≤ (object [member "ok" (truth true), member "action" (quoted (utf8 "create")),
      member "note" (0x22 :: longNote ++ [0x22])]).length
    simp only [object_size, List.map_cons, List.map_nil, List.sum_cons, List.sum_nil, member_size, List.length_append,
      List.length_cons, longNote, List.length_replicate]
    omega
  have outcome := written_outcome ready rfl
  rw [if_neg (by unfold recordRoom; omega)] at outcome
  obtain ⟨saved, granted⟩ := (all longHost folderRequest).answered _ (congrArg Outcome.file outcome)
  rw [outcome] at granted
  cases granted

end Use

end SamosaChat.Preflight
