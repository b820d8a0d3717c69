import SamosaChat.Http.Escape
import SamosaChat.Json.Unescaped

set_option autoImplicit false

namespace SamosaChat.ReadCache

open Utf8 Text Decimal Json Http Function

-- Both callers name an entry by one file name: the SHA-256 of the file in hex, or the id of an attachment.
structure Key where
  name : Bytes
  long : 2 ≤ name.length
  file : (0x2f : UInt8) ∉ name
  text : (0 : UInt8) ∉ name
deriving DecidableEq

structure Stored where
  contract : Bytes
  fingerprint : Bytes
  result : Bytes
deriving DecidableEq

def rcUnit (c : UInt8) : Bytes :=
  if c = 0x22 ∨ c = 0x5c then [0x5c, c]
  else if c = 0x0a then utf8 "\\n"
  else if c = 0x0d then utf8 "\\r"
  else if c = 0x09 then utf8 "\\t"
  else if c < 0x20 then utf8 "\\u00" ++ [hexDigit (c >>> 4), hexDigit (c &&& 15)]
  else [c]

def rcEscape (cap : Nat) (dst : Bytes) : Bytes → Bytes
  | [] => dst
  | c :: s => if dst.length + 8 < cap then rcEscape cap (dst ++ rcUnit c) s else dst

def entryText (stored : Stored) (now : Int) : Bytes :=
  utf8 "\x7b\"contract_version\":\"" ++ stored.contract ++ utf8 "\",\"pack_fingerprint\":\"" ++ stored.fingerprint ++
    utf8 "\",\"created\":" ++ decimalInt now ++ utf8 ",\"result\":\"" ++
      rcEscape (stored.result.length * 6 + 16) [] stored.result ++ utf8 "\"\x7d"

def pathMax : Nat := 4096

def printed (size : Nat) (text : Bytes) : Bytes :=
  text.take (size - 1)

def rcEntryPath (root : Bytes) (key : Key) : Bytes :=
  printed (pathMax + 80) (root ++ 0x2f :: key.name.take 2 ++ 0x2f :: key.name ++ utf8 ".json")

def tmpPath (path : Bytes) (pid : Nat) : Bytes :=
  printed (pathMax + 96) (path ++ utf8 ".tmp." ++ decimal pid)

abbrev Disk := Bytes → Option Bytes

-- How the calls of a put end: open and flock of the lock, open of the file, fdopen and malloc. fprintf stops at the first
-- write that fails: so many bytes of the entry are out then. No path of PATH_MAX bytes or more is opened.
structure PutAttempt where
  locks : Bool
  opens : Bool
  allocates : Bool
  writes : Nat
  syncs : Bool
  renames : Bool
  now : Int
  pid : Nat

-- Whether it returns 0, and the disk. What fprintf returns is not looked at.
def readCachePut (attempt : PutAttempt) (root : Bytes) (key : Key) (stored : Stored) (disk : Disk) : Bool × Disk :=
  let path := rcEntryPath root key
  let tmp := tmpPath path attempt.pid
  if !attempt.locks then (false, disk)
  else if !(attempt.opens && decide (tmp.length < pathMax)) then (false, disk)
  else if !attempt.allocates then (false, Function.update disk tmp none)
  else
    let entry := (entryText stored attempt.now).take attempt.writes
    if attempt.syncs && attempt.renames then (true, Function.update (Function.update disk tmp none) path (some entry))
    else (false, Function.update disk tmp none)

structure GetAttempt where
  opens : Bool
  allocates : Bool
  reads : Bool

def GetAttempt.works (attempt : GetAttempt) : Bool :=
  attempt.opens && attempt.allocates && attempt.reads

def strOf : Option Jval → Option Bytes
  | some (.str str) => some str
  | _ => none

def readCacheGet (attempt : GetAttempt) (root : Bytes) (key : Key) (contract fingerprint : Bytes) (disk : Disk) :
    Except Stop (Option Bytes) :=
  let path := rcEntryPath root key
  match disk path with
  | none => .ok none
  | some txt =>
    if !(attempt.works && decide (path.length < pathMax)) then .ok none
    else
      (jsonParse txt).map fun (o, _) =>
        match o with
        | .obj _ =>
          match strOf (jsonGet o (utf8 "contract_version")), strOf (jsonGet o (utf8 "pack_fingerprint")),
            strOf (jsonGet o (utf8 "result")) with
          | some cv, some fp, some rs => if cv = contract ∧ fp = fingerprint then some rs else none
          | _, _, _ => none
        | _ => none

theorem rc_unit_eq (c : UInt8) : rcUnit c = escapeUnit c := by
  unfold rcUnit escapeUnit
  by_cases quote : c = 0x22
  · rw [if_pos (.inl quote), if_pos quote, quote]
    decide
  · rw [if_neg quote]
    by_cases backslash : c = 0x5c
    · rw [if_pos (.inr backslash), if_pos backslash, backslash]
      decide
    · rw [if_neg (not_or.mpr ⟨quote, backslash⟩), if_neg backslash]

theorem rc_unit_length (c : UInt8) : (rcUnit c).length ≤ 6 := by
  revert c
  exact every_byte (by decide +kernel)

theorem rc_escape_whole {cap : Nat} (s dst : Bytes) (room : dst.length + s.length * 6 + 16 ≤ cap) :
    rcEscape cap dst s = dst ++ s.flatMap escapeUnit := by
  induction s generalizing dst with
  | nil => exact (List.append_nil dst).symm
  | cons c s ih =>
    have unit := rc_unit_length c
    rw [List.length_cons] at room
    rw [rcEscape, if_pos (by omega), ih _ (by rw [List.length_append]; omega), rc_unit_eq, List.flatMap_cons,
      List.append_assoc]

theorem unit_text {c : UInt8} (text : c ≠ 0) : (0 : UInt8) ∉ escapeUnit c := by
  revert c
  exact fun {c} => every_byte (p := fun c => c ≠ 0 → (0 : UInt8) ∉ escapeUnit c) (by decide +kernel) c

-- The results, and the contracts and fingerprints, that an entry keeps. Longer strings overflow the int that J_PUT doubles.
structure Storable (stored : Stored) : Prop where
  contract : Plain stored.contract ∧ (0 : UInt8) ∉ stored.contract
  fingerprint : Plain stored.fingerprint ∧ (0 : UInt8) ∉ stored.fingerprint
  result : (0 : UInt8) ∉ stored.result
  short : stored.contract.length < 2 ^ 30 ∧ stored.fingerprint.length < 2 ^ 30 ∧ stored.result.length < 2 ^ 30

theorem entry_shape (stored : Stored) (now : Int) :
    entryText stored now = 0x7b :: 0x22 :: (utf8 "contract_version" ++ 0x22 :: 0x3a :: (0x22 :: stored.contract ++ [0x22] ++
      0x2c :: 0x22 :: (utf8 "pack_fingerprint" ++ 0x22 :: 0x3a :: (0x22 :: stored.fingerprint ++ [0x22] ++
      0x2c :: 0x22 :: (utf8 "created" ++ 0x22 :: 0x3a :: (decimalInt now ++
      0x2c :: 0x22 :: (utf8 "result" ++ 0x22 :: 0x3a :: (0x22 :: stored.result.flatMap escapeUnit ++ [0x22] ++ [0x7d])))))))) := by
  have first : utf8 "\x7b\"contract_version\":\"" = 0x7b :: 0x22 :: (utf8 "contract_version" ++ [0x22, 0x3a, 0x22]) := by
    decide +kernel
  have second : utf8 "\",\"pack_fingerprint\":\"" = [0x22, 0x2c, 0x22] ++ utf8 "pack_fingerprint" ++ [0x22, 0x3a, 0x22] := by
    decide +kernel
  have third : utf8 "\",\"created\":" = [0x22, 0x2c, 0x22] ++ utf8 "created" ++ [0x22, 0x3a] := by decide +kernel
  have fourth : utf8 ",\"result\":\"" = [0x2c, 0x22] ++ utf8 "result" ++ [0x22, 0x3a, 0x22] := by decide +kernel
  have last : utf8 "\"\x7d" = [0x22, 0x7d] := by decide +kernel
  rw [entryText, rc_escape_whole stored.result [] (by simp), first, second, third, fourth, last]
  simp only [List.append_assoc, List.cons_append, List.nil_append]

theorem field_read {fuel : Nat} {key s rest : Bytes} {value : Jval} (name : Name key)
    (read : jParseVal fuel s = .ok (value, 0x2c :: rest)) : jParseFields (fuel + 1) (0x22 :: (key ++ 0x22 :: 0x3a :: s)) =
      (jParseFields fuel rest).map fun (fields, s) => ((key, value) :: fields, s) := by
  rw [field_step name, read]
  simp only [Except.bind, delimiter_comma, if_true]

theorem field_last {fuel : Nat} {key s : Bytes} {value : Jval} (name : Name key) (read : jParseVal fuel s = .ok (value, [0x7d])) :
    jParseFields (fuel + 1) (0x22 :: (key ++ 0x22 :: 0x3a :: s)) = .ok ([(key, value)], []) := by
  rw [field_step name, read]
  simp only [Except.bind]
  rw [delimiter_close [] (by decide) (by decide)]
  rfl

theorem string_read {fuel : Nat} {escaped bytes tail : Bytes} (decodes : Decodes (escaped ++ 0x22 :: tail) bytes tail)
    (text : (0 : UInt8) ∉ bytes) : jParseVal (fuel + 1) (0x22 :: escaped ++ [0x22] ++ tail) = .ok (.str bytes, tail) := by
  rw [parse_raw, decodes _ (Nat.lt_succ_self _)]
  exact congrArg (fun text => Except.ok (Jval.str text, tail)) (cstr_self text)

theorem plain_decodes {text : Bytes} (plain : Plain text) (tail : Bytes) : Decodes (text ++ 0x22 :: tail) text tail := by
  have loop := decodes_plain plain (decodes_quote tail)
  rwa [List.append_nil] at loop

theorem result_decodes (text tail : Bytes) : Decodes (text.flatMap escapeUnit ++ 0x22 :: tail) text tail := by
  have loop := @decodes_units text _ _ _ (decodes_quote tail)
  rwa [List.append_nil] at loop

def entryNames : List Bytes :=
  [utf8 "contract_version", utf8 "pack_fingerprint", utf8 "created", utf8 "result"]

theorem entry_names {key : Bytes} (inside : key ∈ entryNames) : Name key := by
  have all : ∀ key ∈ entryNames, (∀ c ∈ key, c ≠ 0x22 ∧ c ≠ 0x5c) ∧ (0 : UInt8) ∉ key ∧ key ≠ [] ∧
      ∀ c ∈ key.head?, isSpace c = false ∧ c ≠ 0x2c := by decide +kernel
  obtain ⟨plain, text, some_, first⟩ := all key inside
  exact ⟨plain, text, some_, first⟩

theorem entry_text {stored : Stored} (storable : Storable stored) (now : Int) : (0 : UInt8) ∉ entryText stored now := by
  have escaped : (0 : UInt8) ∉ stored.result.flatMap escapeUnit := fun inside => by
    obtain ⟨c, among, here⟩ := List.mem_flatMap.mp inside
    exact unit_text (fun same => storable.result (same ▸ among)) here
  have number : (0 : UInt8) ∉ decimalInt now := visible_text (decimal_int_visible now)
  have names : ∀ key ∈ entryNames, (0 : UInt8) ∉ key := fun key inside => (entry_names inside).text
  simp only [entryNames, List.forall_mem_cons] at names
  rw [entry_shape]
  simp [names.1, names.2.1, names.2.2.1, names.2.2.2.1, escaped, number, storable.contract.2, storable.fingerprint.2]

theorem entry_parsed {stored : Stored} (storable : Storable stored) (now : Int) :
    ∃ created, jsonParse (entryText stored now) = .ok (.obj [(utf8 "contract_version", .str stored.contract),
      (utf8 "pack_fingerprint", .str stored.fingerprint), (utf8 "created", created), (utf8 "result", .str stored.result)], []) := by
  have names : ∀ key ∈ entryNames, Name key := fun key inside => entry_names inside
  simp only [entryNames, List.forall_mem_cons] at names
  obtain ⟨version, pack, created, result, _⟩ := names
  obtain ⟨k, enough⟩ : ∃ k, 2 * (entryText stored now).length + 2 = k + 6 := by
    refine ⟨2 * (entryText stored now).length - 4, ?_⟩
    rw [entry_shape]
    simp only [List.length_cons]
    omega
  refine ⟨.num (Binary64.ofRatio (decide (now < 0)) now.natAbs 1), ?_⟩
  rw [jsonParse, cstr_self (entry_text storable now), fuelFor, enough, entry_shape, parse_val_head _ (by decide),
    if_neg (by decide), if_pos rfl, ws_cons (by decide), if_neg (by simp)]
  rw [field_read version (string_read (plain_decodes storable.contract.1 _) storable.contract.2),
    field_read pack (string_read (plain_decodes storable.fingerprint.1 _) storable.fingerprint.2),
    field_read created (parse_int now (closed_cons (.inl rfl) _)),
    field_last result (string_read (result_decodes stored.result _) storable.result)]
  rfl

theorem printed_whole (size : Nat) {text : Bytes} (short : (printed size text).length < size - 1) : printed size text = text := by
  rw [printed, List.length_take] at short
  exact List.take_of_length_le (by omega)

section Paths

variable {root : Bytes} {key key' : Key}

theorem entry_path_inj (short : (rcEntryPath root key).length < pathMax) (same : rcEntryPath root key' = rcEntryPath root key) :
    key' = key := by
  have whole := printed_whole (pathMax + 80) (Nat.lt_of_lt_of_le short (by decide))
  rw [← same] at short
  have whole' := printed_whole (pathMax + 80) (Nat.lt_of_lt_of_le short (by decide))
  unfold rcEntryPath at same
  rw [whole, whole'] at same
  have take_ : (key'.name.take 2).length = (key.name.take 2).length := by
    rw [List.length_take_of_le key.long, List.length_take_of_le key'.long]
  simp only [List.append_assoc, List.cons_append] at same
  obtain ⟨_, same⟩ := List.cons.inj (List.append_cancel_left same)
  obtain ⟨_, same⟩ := List.append_inj same take_
  have name := List.append_cancel_right (List.cons.inj same).2
  cases key
  cases key'
  cases name
  rfl

theorem tmp_longer (path : Bytes) {pid : Nat} (short : (tmpPath path pid).length < pathMax) :
    tmpPath path pid = path ++ utf8 ".tmp." ++ decimal pid ∧ path.length < pathMax := by
  have whole := printed_whole (pathMax + 96) (Nat.lt_of_lt_of_le short (by decide))
  refine ⟨whole, ?_⟩
  rw [tmpPath, whole, List.length_append, List.length_append] at short
  omega

theorem tmp_other {pid : Nat} (short : (tmpPath (rcEntryPath root key) pid).length < pathMax) :
    rcEntryPath root key' ≠ tmpPath (rcEntryPath root key) pid := by
  intro same
  have whole' : rcEntryPath root key' = root ++ 0x2f :: key'.name.take 2 ++ 0x2f :: key'.name ++ utf8 ".json" := by
    rw [← same] at short
    exact printed_whole (pathMax + 80) (Nat.lt_of_lt_of_le short (by decide))
  have digits : ∀ c ∈ decimal pid, isDigit c = true := fun c inside => decimal_digits inside
  have json : utf8 ".json" = [0x2e, 0x6a, 0x73, 0x6f, 0x6e] := by decide +kernel
  have entry : (rcEntryPath root key').getLast? = some 0x6e := by
    rw [whole', json, List.getLast?_append]
    rfl
  have last : (decimal pid).getLast? = some 0x6e := by
    rw [same, (tmp_longer _ short).1, List.getLast?_append] at entry
    cases shown : (decimal pid).getLast? with
    | none => exact absurd (List.getLast?_eq_none_iff.mp shown) (decimal_ne_nil pid)
    | some c =>
      rw [shown] at entry
      exact entry
  exact absurd (digits _ (List.mem_of_getLast? last)) (by decide)

-- What a put does: it fails and leaves every entry, or leaves what it wrote as the entry of its key and no other.
theorem put_cases (attempt : PutAttempt) (root : Bytes) (key : Key) (stored : Stored) (disk : Disk) :
    ((readCachePut attempt root key stored disk).1 = false ∧
      ∀ key', (readCachePut attempt root key stored disk).2 (rcEntryPath root key') = disk (rcEntryPath root key')) ∨
    ((readCachePut attempt root key stored disk).1 = true ∧ (rcEntryPath root key).length < pathMax ∧
      (readCachePut attempt root key stored disk).2 (rcEntryPath root key) =
        some ((entryText stored attempt.now).take attempt.writes) ∧ ∀ key', key' ≠ key →
        (readCachePut attempt root key stored disk).2 (rcEntryPath root key') = disk (rcEntryPath root key')) := by
  have unchanged (short : (tmpPath (rcEntryPath root key) attempt.pid).length < pathMax) (key' : Key) :
      update disk (tmpPath (rcEntryPath root key) attempt.pid) none (rcEntryPath root key') =
        disk (rcEntryPath root key') := update_of_ne (tmp_other short) _ _
  unfold readCachePut
  simp only
  by_cases locks : (!attempt.locks) = true
  · rw [if_pos locks]
    exact .inl ⟨rfl, fun _ => rfl⟩
  · rw [if_neg locks]
    by_cases opens : (!(attempt.opens && decide ((tmpPath (rcEntryPath root key) attempt.pid).length < pathMax))) = true
    · rw [if_pos opens]
      exact .inl ⟨rfl, fun _ => rfl⟩
    · rw [if_neg opens]
      simp only [Bool.not_eq_true', Bool.not_eq_false, Bool.and_eq_true, decide_eq_true_eq] at opens
      have short := opens.2
      by_cases allocates : (!attempt.allocates) = true
      · rw [if_pos allocates]
        exact .inl ⟨rfl, unchanged short⟩
      · rw [if_neg allocates]
        by_cases published : (attempt.syncs && attempt.renames) = true
        · rw [if_pos published]
          refine .inr ⟨rfl, (tmp_longer _ short).2, update_self _ _ _, fun key' other => ?_⟩
          have path : rcEntryPath root key' ≠ rcEntryPath root key := fun same =>
            other (entry_path_inj (tmp_longer _ short).2 same)
          exact (update_of_ne path _ _).trans (unchanged short key')
        · rw [if_neg published]
          exact .inl ⟨rfl, unchanged short⟩

theorem get_congr {attempt : GetAttempt} {contract fingerprint : Bytes} {disk disk' : Disk}
    (same : disk' (rcEntryPath root key) = disk (rcEntryPath root key)) :
    readCacheGet attempt root key contract fingerprint disk' = readCacheGet attempt root key contract fingerprint disk := by
  simp only [readCacheGet, same]

theorem get_stored {attempt : GetAttempt} {contract fingerprint : Bytes} {disk : Disk} {stored : Stored} {now : Int}
    (storable : Storable stored) (short : (rcEntryPath root key).length < pathMax)
    (entry : disk (rcEntryPath root key) = some (entryText stored now)) :
    readCacheGet attempt root key contract fingerprint disk =
      .ok (if attempt.works = true ∧ stored.contract = contract ∧ stored.fingerprint = fingerprint then some stored.result
        else none) := by
  obtain ⟨created, parsed⟩ := entry_parsed storable now
  have version : find (utf8 "contract_version") [(utf8 "contract_version", Jval.str stored.contract),
      (utf8 "pack_fingerprint", .str stored.fingerprint), (utf8 "created", created), (utf8 "result", .str stored.result)] =
        some (.str stored.contract) := rfl
  have pack : find (utf8 "pack_fingerprint") [(utf8 "contract_version", Jval.str stored.contract),
      (utf8 "pack_fingerprint", .str stored.fingerprint), (utf8 "created", created), (utf8 "result", .str stored.result)] =
        some (.str stored.fingerprint) := rfl
  have result : find (utf8 "result") [(utf8 "contract_version", Jval.str stored.contract),
      (utf8 "pack_fingerprint", .str stored.fingerprint), (utf8 "created", created), (utf8 "result", .str stored.result)] =
        some (.str stored.result) := rfl
  by_cases works : attempt.works = true
  · simp only [readCacheGet, entry, works, short, decide_true, Bool.and_self, Bool.not_true, Bool.false_eq_true, if_false, parsed,
      Except.map, jsonGet, version, pack, result, strOf, true_and]
  · rw [Bool.not_eq_true] at works
    simp only [readCacheGet, entry, works, Bool.false_and, Bool.not_false, if_true, Bool.false_eq_true, false_and, if_false]

end Paths

inductive Call
  | put (attempt : PutAttempt) (key : Key) (stored : Stored)
  | prune (takes : Bytes → Bool)

-- The disk, and what the calls that have returned promise: for each key the last put that returned 0, until a prune
-- takes the entry away.
structure State where
  disk : Disk
  promised : Key → Option Stored

def step (root : Bytes) (state : State) : Call → State
  | .put attempt key stored =>
    let put := readCachePut attempt root key stored state.disk
    { disk := put.2, promised := if put.1 then Function.update state.promised key (some stored) else state.promised }
  | .prune takes =>
    { disk := fun path => if takes path then none else state.disk path,
      promised := fun key => if takes (rcEntryPath root key) then none else state.promised key }

def start (disk : Disk) : State :=
  { disk := disk, promised := fun _ => none }

def Whole : Call → Prop
  | .put attempt _ stored => Storable stored ∧ (entryText stored attempt.now).length ≤ attempt.writes
  | .prune _ => True

def Agrees (root : Bytes) (state : State) : Prop :=
  ∀ key stored, state.promised key = some stored → Storable stored ∧ (rcEntryPath root key).length < pathMax ∧
    ∃ now, state.disk (rcEntryPath root key) = some (entryText stored now)

theorem step_agrees {root : Bytes} {state : State} {call : Call} (whole : Whole call) (agrees : Agrees root state) :
    Agrees root (step root state call) := by
  cases call with
  | prune takes =>
    intro key stored promised
    by_cases taken : takes (rcEntryPath root key) = true
    · simp only [step, taken, if_true] at promised
      cases promised
    · simp only [step, if_neg taken] at promised ⊢
      exact agrees key stored promised
  | put attempt key stored =>
    obtain ⟨storable, written⟩ := whole
    intro key' stored' promised
    rcases put_cases attempt root key stored state.disk with ⟨failed, same⟩ | ⟨returned, short, entry, others⟩
    · simp only [step, failed, Bool.false_eq_true, if_false] at promised ⊢
      rw [same key']
      exact agrees key' stored' promised
    · simp only [step, returned, if_true] at promised ⊢
      by_cases own : key' = key
      · subst own
        rw [update_self] at promised
        cases promised
        rw [List.take_of_length_le written] at entry
        exact ⟨storable, short, attempt.now, entry⟩
      · rw [update_of_ne own] at promised
        rw [others key' own]
        exact agrees key' stored' promised

theorem run_agrees {root : Bytes} (calls : List Call) (whole : ∀ call ∈ calls, Whole call) {state : State}
    (agrees : Agrees root state) : Agrees root (calls.foldl (step root) state) := by
  induction calls generalizing state with
  | nil => exact agrees
  | cons call calls ih =>
    exact ih (fun other inside => whole other (List.mem_cons_of_mem _ inside))
      (step_agrees (whole call List.mem_cons_self) agrees)

-- A cache that keeps its promises: what was stored is what a look finds, and no other contract or fingerprint finds it;
-- a put on another key changes nothing of it.
structure Kept (root : Bytes) (state : State) : Prop where
  hit : ∀ attempt key stored, state.promised key = some stored → attempt.works = true →
    readCacheGet attempt root key stored.contract stored.fingerprint state.disk = .ok (some stored.result)
  miss : ∀ attempt key stored contract fingerprint, state.promised key = some stored →
    contract ≠ stored.contract ∨ fingerprint ≠ stored.fingerprint →
      readCacheGet attempt root key contract fingerprint state.disk = .ok none
  other : ∀ put key stored attempt key' contract fingerprint, key' ≠ key →
    readCacheGet attempt root key' contract fingerprint (readCachePut put root key stored state.disk).2 =
      readCacheGet attempt root key' contract fingerprint state.disk

theorem put_other (put : PutAttempt) (root : Bytes) {key key' : Key} (stored : Stored) (disk : Disk) (other : key' ≠ key) :
    (readCachePut put root key stored disk).2 (rcEntryPath root key') = disk (rcEntryPath root key') := by
  rcases put_cases put root key stored disk with ⟨_, same⟩ | ⟨_, _, _, others⟩
  · exact same key'
  · exact others key' other

def fine (writes : Nat) : PutAttempt where
  locks := true
  opens := true
  allocates := true
  writes := writes
  syncs := true
  renames := true
  now := 1700000000
  pid := 42

def lookWorks : GetAttempt where
  opens := true
  allocates := true
  reads := true

def ab12 : Key where
  name := utf8 "ab12"
  long := by decide
  file := by decide
  text := by decide

def twoLines : Stored where
  contract := utf8 "reader-v3"
  fingerprint := utf8 "pack-1"
  result := utf8 "\x7b\"lines\":[\"one\",\"two\"]\x7d"

theorem two_lines_storable : Storable twoLines := by
  have plain : Plain twoLines.contract ∧ Plain twoLines.fingerprint := by
    unfold Plain
    decide +kernel
  exact ⟨⟨plain.1, by decide +kernel⟩, ⟨plain.2, by decide +kernel⟩, by decide +kernel, by decide +kernel⟩

end SamosaChat.ReadCache
