import SamosaChat.Jobs.Actions
import SamosaChat.Jobs.WatchRuns

set_option autoImplicit false

namespace SamosaChat.Jobs

open Utf8 Text Binary64 Decimal FloatText Json
open Durable Buffers

structure Move where
  src : Bytes
  dst : Bytes
  size : Nat
  dev : Nat
  ino : Nat
  mtime : Double

structure Sorting where
  moves : List Move
  done : Bool
  incomplete : Bool

def sortedFolder : Bytes :=
  utf8 "Sorted by type/"

def sortLabel (path : Bytes) : Bytes :=
  if jobsReportType path = utf8 "[no extension]" then utf8 "no-extension" else (jobsReportType path).drop 1

def sortMove (folder : Bytes) (entry : WatchEntry) : Move where
  src := folder ++ utf8 "/" ++ entry.path
  dst := folder ++ utf8 "/Sorted by type/" ++ sortLabel entry.path ++ utf8 "/" ++ entry.path
  size := entry.size
  dev := entry.dev
  ino := entry.ino
  mtime := entry.mtime

def sortStep (folder : Bytes) (sorting : Sorting) (record : Bytes) : Option Sorting :=
  match jsonValue record with
  | some (.obj fields) =>
    let obj := Jval.obj fields
    let type := stringField obj "type"
    if type = some (utf8 "file") then
      (watchRow "rel_path" obj).bind fun entry =>
        let move := sortMove folder entry
        if sorting.moves.length ≥ maxFiles then none
        else if sortedFolder <+: entry.path then some sorting
        else if move.src.length ≥ pathMax ∨ move.dst.length ≥ pathMax then none
        else if move.src = move.dst then some sorting
        else some { sorting with moves := sorting.moves ++ [move] }
    else if type = some (utf8 "done") then
      let incomplete := match jsonGet obj (utf8 "partial") with
        | some (.bool boolean) => boolean
        | _ => false
      some { sorting with done := true, incomplete := incomplete }
    else some sorting
  | _ => none

def planLine (move : Move) : Bytes :=
  utf8 "\x7b\"src\":" ++ quoted move.src ++ utf8 ",\"dst\":" ++ quoted move.dst ++ utf8 ",\"size\":" ++ decimal move.size ++
    utf8 ",\"mtime\":" ++ mtimeText move.mtime ++ utf8 ",\"dev\":" ++ decimal move.dev ++ utf8 ",\"ino\":" ++
    decimal move.ino ++ utf8 "\x7d\n"

def planText (moves : List Move) : Bytes :=
  moves.flatMap planLine

def sortGoal : Bytes :=
  utf8 "Sort by file type"

-- save_job_state
def jobText (jobId goal folder : Bytes) (created : Stamp) : Bytes :=
  utf8 "\x7b\"job_id\":" ++ quoted jobId ++ utf8 ",\"goal\":" ++ quoted goal ++ utf8 ",\"folder\":" ++ quoted folder ++
    utf8 ",\"created\":" ++ quoted created.text.text ++ utf8 ",\"schema_version\":1\x7d\n"

def sortJobId (time pid millis : Int) : Bytes :=
  (utf8 "job-" ++ decimalInt time ++ utf8 "-" ++ decimalInt pid ++ utf8 "-" ++ decimalInt millis).take 63

inductive SortEvent
  | decodeIntent (jobId goal folder : Bytes)
  | plan (moves : List (Bytes × Bytes))
  | awaitApply (jobId : Bytes) (moves : Nat)
  | done (jobId summary : Bytes)
deriving DecidableEq

def partialSummary : Bytes :=
  utf8 "Inventory was partial; no moves can be applied. Raise the folder limit or retry."

def preparedSummary (count : Nat) : Bytes :=
  utf8 "Prepared " ++ decimal count ++ utf8 " type-based move" ++ utf8 (if count = 1 then "." else "s.")

def sortEvents (jobId folder : Bytes) (sorting : Sorting) : List SortEvent :=
  [.decodeIntent jobId sortGoal folder, .plan (sorting.moves.map fun move => (move.src, move.dst))] ++
    (if sorting.incomplete = false ∧ sorting.moves.length ≠ 0 then [.awaitApply jobId sorting.moves.length] else []) ++
    [.done jobId (if sorting.incomplete then partialSummary else preparedSummary sorting.moves.length)]

-- One request: the folder, what the scanner printed when it ended well, the clocks, and whether the files
-- are written and the events sent.
structure SortCall where
  folder : Bytes
  output : Option Bytes
  time : Int
  pid : Int
  millis : Int
  created : Stamp
  saves : Bool
  stores : Bool
  streams : Bool

structure SortJob where
  jobId : Bytes
  files : ActionFiles
  events : List SortEvent

def jobsSortByType (call : SortCall) : Option SortJob := do
  let raw ← runCapture inventoryMax call.output
  let sorting ← (lines (cstr raw)).foldlM (sortStep call.folder) { moves := [], done := false, incomplete := false }
  if sorting.done && call.saves && call.stores && call.streams then
    let jobId := sortJobId call.time call.pid call.millis
    some
      { jobId := jobId
        files :=
          { job := some (cstr (jobText jobId sortGoal call.folder call.created))
            plan := some (cstr (planText sorting.moves))
            applied := none
            organize := none }
        events := sortEvents jobId call.folder sorting }
  else none

-- The files that the inventory lists outside the folder of what is sorted already.

def fileOf (record : Bytes) : Option WatchEntry :=
  match jsonValue record with
  | some (.obj fields) => if stringField (.obj fields) "type" = some (utf8 "file") then watchRow "rel_path" (.obj fields) else none
  | _ => none

def unsorted (call : SortCall) : List WatchEntry :=
  ((lines (cstr (call.output.getD []))).filterMap fileOf).filter fun entry => ¬ sortedFolder <+: entry.path

def ToldPartial (job : SortJob) : Prop :=
  .done job.jobId partialSummary ∈ job.events

instance (job : SortJob) : Decidable (ToldPartial job) :=
  inferInstanceAs (Decidable (_ ∈ job.events))

structure PartialJob (call : SortCall) (job : SortJob) : Prop where
  made : jobsSortByType call = some job
  told : ToldPartial job

def NeverApplied (job : SortJob) : Prop :=
  ∀ requests : List ActionRequest, (∀ request ∈ requests, (requestJob request).map Prod.snd = some job.jobId) →
    ∀ run ∈ appliedRuns job.files requests, run.moved = false

section Planning

variable {folder : Bytes} {call : SortCall} {job : SortJob}

theorem sort_move_apart (folder : Bytes) (entry : WatchEntry) : (sortMove folder entry).src ≠ (sortMove folder entry).dst := by
  intro same
  have sizes := congrArg List.length same
  have slash : (utf8 "/").length = 1 := by decide
  have sorted : (utf8 "/Sorted by type/").length = 16 := by decide
  simp only [sortMove, List.length_append, slash, sorted] at sizes
  omega

theorem sort_step_moves {sorting sorting' : Sorting} {record : Bytes} (step : sortStep folder sorting record = some sorting') :
    sorting'.moves = sorting.moves ++
        ((fileOf record).toList.filter fun entry => ¬ sortedFolder <+: entry.path).map (sortMove folder) ∧
      ((∀ move ∈ sorting.moves, move.src.length < pathMax) → ∀ move ∈ sorting'.moves, move.src.length < pathMax) := by
  rw [sortStep] at step
  rw [fileOf]
  split at step
  case h_2 => cases step
  rename_i fields _
  dsimp only at step
  by_cases file : stringField (.obj fields) "type" = some (utf8 "file")
  · rw [if_pos file] at step ⊢
    obtain ⟨entry, read, step⟩ := Option.bind_eq_some_iff.mp step
    rw [read, Option.toList_some]
    obtain ⟨full, step⟩ := past_guard step nofun
    by_cases inside : sortedFolder <+: entry.path
    · rw [if_pos inside] at step
      cases step
      exact ⟨by simp [inside], fun short => short⟩
    rw [if_neg inside] at step
    by_cases long : (sortMove folder entry).src.length ≥ pathMax ∨ (sortMove folder entry).dst.length ≥ pathMax
    · rw [if_pos long] at step
      cases step
    rw [if_neg long, if_neg (sort_move_apart folder entry)] at step
    cases step
    refine ⟨by simp [inside], fun short move among => ?_⟩
    rcases List.mem_append.mp among with before | new
    · exact short move before
    · rw [List.mem_singleton.mp new]
      exact Nat.lt_of_not_le fun more => long (.inl more)
  · rw [if_neg file] at step ⊢
    split_ifs at step
    · cases step
      exact ⟨by simp, fun short => short⟩
    · cases step
      exact ⟨by simp, fun short => short⟩

theorem sort_run_moves {records : List Bytes} {sorting sorting' : Sorting}
    (run : records.foldlM (sortStep folder) sorting = some sorting') : sorting'.moves = sorting.moves ++
        ((records.filterMap fileOf).filter fun entry => ¬ sortedFolder <+: entry.path).map (sortMove folder) ∧
      ((∀ move ∈ sorting.moves, move.src.length < pathMax) → ∀ move ∈ sorting'.moves, move.src.length < pathMax) := by
  induction records generalizing sorting with
  | nil =>
    cases run
    exact ⟨by simp, fun short => short⟩
  | cons record records ih =>
    rw [List.foldlM_cons] at run
    obtain ⟨middle, step, rest⟩ := Option.bind_eq_some_iff.mp run
    obtain ⟨first, small⟩ := sort_step_moves step
    obtain ⟨later, small'⟩ := ih rest
    refine ⟨?_, fun short => small' (small short)⟩
    rw [later, first, List.append_assoc, ← List.map_append, ← List.filter_append]
    cases listed : fileOf record <;> simp [listed]

structure SortMade (call : SortCall) (job : SortJob) : Prop where
  jobId : job.jobId = sortJobId call.time call.pid call.millis
  state : job.files.job = some (cstr (jobText job.jobId sortGoal call.folder call.created))
  plan : job.files.plan = some (cstr (planText ((unsorted call).map (sortMove call.folder))))
  applied : job.files.applied = none
  organize : job.files.organize = none
  short : ∀ entry ∈ unsorted call, (sortMove call.folder entry).src.length < pathMax

theorem sort_made (made : jobsSortByType call = some job) : SortMade call job := by
  obtain ⟨raw, captured, made⟩ := Option.bind_eq_some_iff.mp made
  obtain ⟨sorting, run, made⟩ := Option.bind_eq_some_iff.mp made
  have output : call.output.getD [] = raw := by rw [(Option.filter_eq_some_iff.mp captured).1, Option.getD_some]
  obtain ⟨moves, short⟩ := sort_run_moves run
  rw [List.nil_append, ← output, ← unsorted] at moves
  split at made
  · cases made
    refine ⟨rfl, rfl, ?_, rfl, rfl, ?_⟩
    · dsimp only
      rw [moves]
    · intro entry inside
      apply short (fun move none_ => by cases none_)
      rw [moves]
      exact List.mem_map_of_mem inside
  · cases made

end Planning

-- One line of the plan as a later request reads it.

def planBody (move : Move) : Bytes :=
  0x7b :: [("src", quoted move.src), ("dst", quoted move.dst), ("size", decimal move.size)].foldr
    (fun field t => member field.1 field.2 ++ 0x2c :: t)
    (member "mtime" (mtimeText move.mtime) ++ 0x2c :: (member "dev" (decimal move.dev) ++ 0x2c ::
      (member "ino" (decimal move.ino) ++ [0x7d])))

theorem plan_line_eq (move : Move) : planLine move = planBody move ++ [newline] := by
  have src : utf8 "\x7b\"src\":" = 0x7b :: (quoted (utf8 "src") ++ [0x3a]) := by decide
  have dst : utf8 ",\"dst\":" = 0x2c :: (quoted (utf8 "dst") ++ [0x3a]) := by decide
  have size : utf8 ",\"size\":" = 0x2c :: (quoted (utf8 "size") ++ [0x3a]) := by decide
  have mtime : utf8 ",\"mtime\":" = 0x2c :: (quoted (utf8 "mtime") ++ [0x3a]) := by decide
  have dev : utf8 ",\"dev\":" = 0x2c :: (quoted (utf8 "dev") ++ [0x3a]) := by decide
  have ino : utf8 ",\"ino\":" = 0x2c :: (quoted (utf8 "ino") ++ [0x3a]) := by decide
  have close : utf8 "\x7d\n" = [0x7d, newline] := by decide
  rw [planLine, src, dst, size, mtime, dev, ino, close]
  simp only [planBody, member, List.foldr_cons, List.foldr_nil, List.append_assoc, List.cons_append, List.nil_append]

theorem mtime_visible (mtime : Double) : Visible (mtimeText mtime) := by
  have whole : Visible (fixedNine mtime) := by
    cases mtime with
    | nan => exact (by decide : Visible (utf8 "nan"))
    | inf negative =>
      cases negative with
      | true => exact (by decide : Visible (utf8 "-inf"))
      | false => exact (by decide : Visible (utf8 "inf"))
    | finite negative magnitude => exact fixed_visible negative magnitude
  exact fun c inside => whole c (List.mem_of_mem_take inside)

theorem plan_body_visible (move : Move) : Visible (planBody move) := by
  have text (value : Bytes) : Visible (quoted value) := by
    rw [quoted_eq]
    exact quoted_visible value
  have comma {first rest : Bytes} (front : Visible first) (later : Visible rest) : Visible (first ++ 0x2c :: rest) :=
    visible_append.mpr ⟨front, visible_cons.mpr ⟨by decide, later⟩⟩
  refine visible_cons.mpr ⟨by decide, ?_⟩
  simp only [List.foldr_cons, List.foldr_nil]
  apply comma (member_visible _ (text _))
  apply comma (member_visible _ (text _))
  apply comma (member_visible _ (decimal_visible _))
  apply comma (member_visible _ (mtime_visible _))
  apply comma (member_visible _ (decimal_visible _))
  exact visible_append.mpr ⟨member_visible _ (decimal_visible _), by decide⟩

theorem visible_newline {text : Bytes} (visible : Visible text) : newline ∉ text :=
  fun inside => absurd (visible newline inside) (by decide)

theorem plan_text_clean (moves : List Move) : (0 : UInt8) ∉ planText moves := by
  intro inside
  obtain ⟨move, _, inside⟩ := List.mem_flatMap.mp inside
  rw [plan_line_eq, List.mem_append] at inside
  rcases inside with body | line
  · exact visible_text (plan_body_visible move) body
  · exact absurd (List.mem_singleton.mp line) (by decide)

theorem plan_lines_head (move : Move) (moves : List Move) :
    ∃ rest, planLines (planText (move :: moves)) = planBody move :: rest := by
  have cut : lines (planText (move :: moves)) = planBody move :: lines (planText moves) := by
    rw [planText, List.flatMap_cons, plan_line_eq, List.append_assoc, List.singleton_append]
    exact pieces_cut (visible_newline (plan_body_visible move)) _
  refine ⟨(lines (planText moves)).filter (· ≠ []), ?_⟩
  rw [planLines, cstr_self (plan_text_clean _), cut, List.filter_cons_of_pos (by simp [planBody])]

theorem scan_inf (negative : Bool) {rest : Bytes} (closed : Closed rest) :
    scanNumber negative (0x69 :: 0x6e :: 0x66 :: rest) = some (.inf negative, rest) := by
  have infinity : utf8 "infinity" = [0x69, 0x6e, 0x66, 0x69, 0x6e, 0x69, 0x74, 0x79] := by decide
  have inf : utf8 "inf" = [0x69, 0x6e, 0x66] := by decide
  have i : toLower 0x69 = 0x69 := by decide
  have n : toLower 0x6e = 0x6e := by decide
  have f : toLower 0x66 = 0x66 := by decide
  have other : ∀ c ∈ rest.head?, toLower c ≠ 0x69 := by
    intro c front
    rcases closed c front with rfl | rfl | rfl <;> decide
  rw [scanNumber, infinity, inf]
  simp only [List.map_cons, i, n, f, List.drop_succ_cons, List.drop_zero]
  rw [if_neg, if_pos (by simp [List.isPrefixOf])]
  cases rest with
  | nil => simp [List.isPrefixOf]
  | cons c rest =>
    have differs : (0x69 == toLower c) = false := beq_eq_false_iff_ne.mpr (Ne.symm (other c rfl))
    simp [List.isPrefixOf, differs]

theorem strtod_inf (negative : Bool) {rest : Bytes} (closed : Closed rest) :
    strtod (fixedNine (.inf negative) ++ rest) = (.inf negative, rest) := by
  have scan := scan_inf negative closed
  cases negative with
  | true =>
    have text : utf8 "-inf" = [0x2d, 0x69, 0x6e, 0x66] := by decide
    have space : isSpace 0x2d = false := by decide
    rw [fixedNine, if_pos rfl, text]
    simp only [strtod, List.cons_append, List.nil_append, List.dropWhile_cons, space, Bool.false_eq_true, if_false,
      List.head?_cons, beq_self_eq_true, Bool.true_or, if_true, List.drop_succ_cons, List.drop_zero, scan,
      Option.getD_some]
  | false =>
    have text : utf8 "inf" = [0x69, 0x6e, 0x66] := by decide
    have space : isSpace 0x69 = false := by decide
    have plain : (some (0x69 : UInt8) == some 0x2d) = false ∧ (some (0x69 : UInt8) == some 0x2b) = false := by decide
    rw [fixedNine, if_neg Bool.false_ne_true, text]
    simp only [strtod, List.cons_append, List.nil_append, List.dropWhile_cons, space, Bool.false_eq_true, if_false,
      List.head?_cons, plain.1, plain.2, Bool.or_self, scan, Option.getD_some]

theorem reads_mtime {mtime : Double} (some_ : mtime ≠ .nan) : ∃ num, Reads 0 (mtimeText mtime) (.num num) := by
  cases mtime with
  | nan => exact absurd rfl some_
  | inf negative =>
    have text : ∃ c t, mtimeText (.inf negative) = c :: t ∧ isSpace c = false ∧ c ∈ [(0x69 : UInt8), 0x2d] := by
      cases negative with
      | true => exact ⟨0x2d, utf8 "inf", by decide, by decide, by decide⟩
      | false => exact ⟨0x69, utf8 "nf", by decide, by decide, by decide⟩
    have whole : mtimeText (.inf negative) = fixedNine (.inf negative) := by cases negative <;> decide
    obtain ⟨c, t, shape, plain, first⟩ := text
    have other : ∀ d ∈ [(0x22 : UInt8), 0x7b, 0x5b, 0x74, 0x66, 0x6e, 0x5d], c ≠ d := by
      rintro d inside rfl
      have apart : ∀ c ∈ [(0x69 : UInt8), 0x2d], c ∉ [(0x22 : UInt8), 0x7b, 0x5b, 0x74, 0x66, 0x6e, 0x5d] := by decide
      exact apart c first inside
    refine ⟨.inf negative, ⟨c, t, shape, plain, other _ (by decide)⟩, ?_⟩
    intro fuel rest enough closed
    obtain ⟨fuel, rfl⟩ := Nat.exists_eq_add_of_lt enough
    have number := strtod_inf negative closed
    rw [← whole, shape, List.cons_append] at number
    rw [shape, List.cons_append, parse_val_head _ plain, if_neg (other _ (by decide)), if_neg (other _ (by decide)),
      if_neg (other _ (by decide)), if_neg (other _ (by decide)), if_neg (other _ (by decide)),
      if_neg (other _ (by decide)), number]
  | finite negative magnitude =>
    obtain ⟨c, t, shape, first, num, read⟩ := strtod_cut negative magnitude 61
    exact ⟨num, reads_number ⟨c, t, shape, first⟩ read⟩

theorem plan_key {key : String} (named : key ∈ ["src", "dst", "size", "mtime", "dev", "ino"]) : StringText (utf8 key) := by
  apply literal_text
  revert key
  decide

theorem plan_tail_read (move : Move) : ∃ fields r, (∀ field ∈ fields, field.1 ≠ utf8 "op") ∧ ∀ fuel, 3 < fuel →
      jParseFields fuel (member "mtime" (mtimeText move.mtime) ++ 0x2c :: (member "dev" (decimal move.dev) ++ 0x2c ::
        (member "ino" (decimal move.ino) ++ [0x7d]))) = .ok (fields, r) := by
  by_cases none_ : move.mtime = .nan
  · -- The word for no number starts like null, and the comma goes with it.
    have text : mtimeText .nan = [0x6e, 0x61, 0x6e] := by decide
    obtain ⟨rest, behind⟩ : ∃ rest, member "dev" (decimal move.dev) ++ 0x2c :: (member "ino" (decimal move.ino) ++ [0x7d]) =
        0x22 :: rest := by
      rw [member, quoted_eq]
      exact ⟨_, rfl⟩
    refine ⟨[(utf8 "mtime", .null)], 0x22 :: rest, by decide, fun fuel enough => ?_⟩
    obtain ⟨fuel, rfl⟩ := Nat.exists_eq_add_of_lt enough
    have null : jParseVal (3 + fuel) (0x6e :: 0x61 :: 0x6e :: 0x2c :: 0x22 :: rest) = .ok (.null, 0x22 :: rest) := by
      rw [Nat.add_comm, parse_val_head _ (by decide), if_neg (by decide), if_neg (by decide), if_neg (by decide),
        if_neg (by decide), if_neg (by decide), if_pos rfl, literal, advance, if_pos (by simp)]
      rfl
    have shape : member "mtime" [0x6e, 0x61, 0x6e] ++ 0x2c :: 0x22 :: rest =
        0x22 :: escaped (utf8 "mtime") ++ 0x22 :: 0x3a :: 0x6e :: 0x61 :: 0x6e :: 0x2c :: 0x22 :: rest := by
      simp [member, quoted_eq]
    have ends : delimiter 0x7d (0x22 :: rest) = (false, 0x22 :: rest) := by
      rw [delimiter, ws_cons (by decide), List.head?_cons, if_neg (by decide), if_neg (by decide)]
    rw [none_, text, behind, shape, parse_fields_step (plan_key (by decide)) null, ends]
    rfl
  · obtain ⟨num, reads⟩ := reads_mtime none_
    let items : List (String × Bytes × Jval) := [("dev", decimal move.dev, .num (ofScaled false 10 move.dev 0)),
      ("ino", decimal move.ino, .num (ofScaled false 10 move.ino 0))]
    let first : String × Bytes × Jval := ("mtime", mtimeText move.mtime, .num num)
    have named : ∀ item ∈ first :: items, item.1 ∈ ["mtime", "dev", "ino"] := by simp [first, items]
    have other : ∀ key ∈ ["mtime", "dev", "ino"], key ≠ "op" ∧ key ∈ ["src", "dst", "size", "mtime", "dev", "ino"] := by
      decide
    refine ⟨(first :: items).map fun item => (utf8 item.1, item.2.2), [], ?_, fun fuel enough => ?_⟩
    · intro field inside
      obtain ⟨item, among, rfl⟩ := List.mem_map.mp inside
      exact fun same => (other _ (named item among)).1 (utf8_injective same)
    · have read := @fields_read _ 0 (fun item : String × Bytes × Jval => item.2.1) (fun item => item.2.2) (fun item => item.1)
        first items []
        (fun item inside => plan_key (other _ (named item inside)).2)
        (fun item inside => by
          simp only [first, items, List.mem_cons, List.not_mem_nil, or_false] at inside
          rcases inside with rfl | rfl | rfl
          · exact reads
          · exact reads_decimal move.dev
          · exact reads_decimal move.ino)
        fuel enough
      refine Eq.trans (congrArg (jParseFields fuel) ?_) read
      simp only [first, items, List.map_cons, List.map_nil, commas, List.append_assoc, List.cons_append]

theorem find_absent {key : Bytes} {fields : List (Bytes × Jval)} (absent : ∀ field ∈ fields, field.1 ≠ key) :
    Json.find key fields = none := by
  induction fields with
  | nil => rfl
  | cons field fields ih =>
    rw [Json.find, if_neg (absent field (by simp)), ih fun other inside => absent other (List.mem_cons_of_mem _ inside)]

theorem plan_body_value (move : Move) :
    ∃ value, jsonValue (planBody move) = some value ∧ stringField value "src" = some (cstr (lossy move.src)) ∧
      stringField value "dst" = some (cstr (lossy move.dst)) ∧ stringField value "op" = none := by
  obtain ⟨fields, r, absent, tail⟩ := plan_tail_read move
  let items : List (String × Bytes × Jval) := [("src", quoted move.src, .str (cstr (lossy move.src))),
    ("dst", quoted move.dst, .str (cstr (lossy move.dst))),
    ("size", decimal move.size, .num (ofScaled false 10 move.size 0))]
  have named : ∀ item ∈ items, item.1 ∈ ["src", "dst", "size"] := by simp [items]
  have keys : ∀ key ∈ ["src", "dst", "size"], key ∈ ["src", "dst", "size", "mtime", "dev", "ino"] := by decide
  have reads : ∀ item ∈ items, Reads 0 item.2.1 item.2.2 := by
    intro item inside
    simp only [items, List.mem_cons, List.not_mem_nil, or_false] at inside
    rcases inside with rfl | rfl | rfl
    · exact reads_lossy move.src
    · exact reads_lossy move.dst
    · exact reads_decimal move.size
  have read := @fields_then _ 0 (fun item : String × Bytes × Jval => item.2.1) (fun item => item.2.2) (fun item => item.1)
    3 _ r fields items (fun item inside => plan_key (keys _ (named item inside))) reads tail
  have text : planBody move = 0x7b :: items.foldr (fun item t => member item.1 item.2.1 ++ 0x2c :: t)
      (member "mtime" (mtimeText move.mtime) ++ 0x2c :: (member "dev" (decimal move.dev) ++ 0x2c ::
        (member "ino" (decimal move.ino) ++ [0x7d]))) := rfl
  obtain ⟨t, front⟩ : ∃ t, items.foldr (fun item t => member item.1 item.2.1 ++ 0x2c :: t)
      (member "mtime" (mtimeText move.mtime) ++ 0x2c :: (member "dev" (decimal move.dev) ++ 0x2c ::
        (member "ino" (decimal move.ino) ++ [0x7d]))) = 0x22 :: t := by
    simp only [items, List.foldr_cons]
    rw [member, quoted_eq]
    exact ⟨_, rfl⟩
  have long : 5 ≤ (planBody move).length := by
    have word : 5 ≤ (quoted (utf8 "src")).length := by decide
    simp only [planBody, List.foldr_cons, member, List.length_cons, List.length_append] at word ⊢
    omega
  refine ⟨.obj (items.map (fun item => (utf8 item.1, item.2.2)) ++ fields), ?_, ?_, ?_, ?_⟩
  · have inner := read (2 * (planBody move).length + 1) (by simp only [items, List.length_cons, List.length_nil]; omega)
    rw [front] at inner
    rw [jsonValue, jsonParse, cstr_self (visible_text (plan_body_visible move)), fuelFor]
    rw [front] at text
    rw [text] at inner ⊢
    rw [parse_obj inner]
  · simp only [items, stringField, jsonGet, List.map_cons, List.cons_append]
    rw [Json.find, if_pos rfl]
  · have other : utf8 "src" ≠ utf8 "dst" := by decide
    simp only [items, stringField, jsonGet, List.map_cons, List.cons_append]
    rw [Json.find, if_neg other, Json.find, if_pos rfl]
  · have none_ : Json.find (utf8 "op") (items.map (fun item => (utf8 item.1, item.2.2)) ++ fields) = none := by
      apply find_absent
      intro field inside
      rcases List.mem_append.mp inside with early | late
      · obtain ⟨item, among, rfl⟩ := List.mem_map.mp early
        have apart : ∀ key ∈ ["src", "dst", "size"], key ≠ "op" := by decide
        exact fun same => apart _ (named item among) (utf8_injective same)
      · exact absent field late
    rw [stringField, jsonGet, none_]

section Partial

variable {call : SortCall} {job : SortJob} {requests : List ActionRequest} {files : ActionFiles}

def Idle (files : ActionFiles) : Prop :=
  files.organize = none ∧ ∀ plan, files.plan = some plan → planLines plan = [] ∨ actionMax < plan.length

theorem idle_runs (idle : Idle files) (request : ActionRequest) : (jobsApplyOrUndo false request files).runs = [] := by
  obtain ⟨ungated, plan⟩ := idle
  rw [jobsApplyOrUndo]
  split
  · rfl
  · split_ifs
    · rfl
    · rfl
    · rfl
    · rfl
    · rename_i body _ _ _ _ _ _
      rw [jobsApplyOrUndoInner]
      split
      · rfl
      cases loadJobState request.calls files.job with
      | none => rfl
      | some state =>
        rw [if_neg Bool.false_ne_true]
        cases read : readFileLimit request.calls actionMax files.plan with
        | none => rfl
        | some raw =>
          obtain ⟨whole, small⟩ := read_some read
          have empty : planLines raw = [] := (plan raw whole).resolve_right (Nat.not_lt.mpr small)
          dsimp only
          rw [empty]
          split
          · rfl
          · rfl

theorem idle_kept (idle : Idle files) (request : ActionRequest) : Idle (jobsApplyOrUndo false request files).files := by
  obtain ⟨_, plan, organize⟩ := @apply_same_plan false request files
  exact ⟨organize.trans idle.1, fun text same => idle.2 text (plan.symm.trans same)⟩

theorem idle_applied (idle : Idle files) (requests : List ActionRequest) : appliedRuns files requests = [] := by
  induction requests generalizing files with
  | nil => rfl
  | cons request requests ih =>
    rw [appliedRuns]
    rw [idle_runs idle, List.nil_append]
    exact ih (idle_kept idle request)

end Partial

-- The state of the job as a later request reads it.

def jobFields (jobId goal folder created : Bytes) : List (String × Bytes × Jval) :=
  [("job_id", quoted jobId, .str (cstr (lossy jobId))), ("goal", quoted goal, .str (cstr (lossy goal))),
    ("folder", quoted folder, .str (cstr (lossy folder))), ("created", quoted created, .str (cstr (lossy created))),
    ("schema_version", decimal 1, .num (ofScaled false 10 1 0))]

section State

variable {jobId goal folder : Bytes} {created : Stamp}

theorem job_text_eq : jobText jobId goal folder created =
    object ((jobFields jobId goal folder created.text.text).map fun field => member field.1 field.2.1) ++ [newline] := by
  have id_ : utf8 "\x7b\"job_id\":" = 0x7b :: (quoted (utf8 "job_id") ++ [0x3a]) := by decide
  have goal_ : utf8 ",\"goal\":" = 0x2c :: (quoted (utf8 "goal") ++ [0x3a]) := by decide
  have folder_ : utf8 ",\"folder\":" = 0x2c :: (quoted (utf8 "folder") ++ [0x3a]) := by decide
  have created_ : utf8 ",\"created\":" = 0x2c :: (quoted (utf8 "created") ++ [0x3a]) := by decide
  have version : utf8 ",\"schema_version\":1\x7d\n" =
      0x2c :: (quoted (utf8 "schema_version") ++ 0x3a :: (decimal 1 ++ [0x7d, newline])) := by
    rw [show decimal 1 = [0x31] by decide]
    decide
  rw [jobText, id_, goal_, folder_, created_, version]
  simp only [jobFields, object, member, commas, List.map_cons, List.map_nil, List.append_assoc, List.cons_append, List.nil_append]

theorem job_field {field : String × Bytes × Jval} {created : Bytes} (inside : field ∈ jobFields jobId goal folder created) :
    field.1 ∈ ["job_id", "goal", "folder", "created", "schema_version"] ∧ Visible field.2.1 ∧ Reads 0 field.2.1 field.2.2 := by
  have text (value : Bytes) : Visible (quoted value) := by
    rw [quoted_eq]
    exact quoted_visible value
  simp only [jobFields, List.mem_cons, List.not_mem_nil, or_false] at inside
  rcases inside with rfl | rfl | rfl | rfl | rfl
  · exact ⟨by simp, text jobId, reads_lossy jobId⟩
  · exact ⟨by simp, text goal, reads_lossy goal⟩
  · exact ⟨by simp, text folder, reads_lossy folder⟩
  · exact ⟨by simp, text created, reads_lossy created⟩
  · exact ⟨by simp, decimal_visible 1, reads_decimal 1⟩

theorem job_text_clean : (0 : UInt8) ∉ jobText jobId goal folder created := by
  rw [job_text_eq, List.mem_append]
  rintro (text | line)
  · refine visible_text (object_visible fun t inside => ?_) text
    obtain ⟨field, among, rfl⟩ := List.mem_map.mp inside
    exact member_visible _ (job_field among).2.1
  · exact absurd (List.mem_singleton.mp line) (by decide)

theorem job_text_value : jsonValue (jobText jobId goal folder created) =
    some (.obj ((jobFields jobId goal folder created.text.text).map fun field => (utf8 field.1, field.2.2))) := by
  have words : ∀ key ∈ ["job_id", "goal", "folder", "created", "schema_version"], (0 : UInt8) ∉ utf8 key := by decide
  have read := object_read (jobFields jobId goal folder created.text.text) [newline]
    (fun field inside => literal_text (words _ (job_field inside).1)) (fun field inside => (job_field inside).2.2)
    (fuelFor (jobText jobId goal folder created)) (by
      have close : 3 ≤ (utf8 ",\"schema_version\":1\x7d\n").length := by decide
      simp only [jobFields, jobText, List.length_cons, List.length_nil, fuelFor, List.length_append] at close ⊢
      omega)
  rw [← job_text_eq] at read
  rw [jsonValue, jsonParse, cstr_self job_text_clean, read]

theorem job_text_short (id_ : jobId.length < 128) (goal_ : goal.length < 128) (folder_ : folder.length < pathMax) :
    (jobText jobId goal folder created).length ≤ jobStateMax := by
  have lengths : (utf8 "\x7b\"job_id\":").length = 10 ∧ (utf8 ",\"goal\":").length = 8 ∧
      (utf8 ",\"folder\":").length = 10 ∧ (utf8 ",\"created\":").length = 11 ∧
      (utf8 ",\"schema_version\":1\x7d\n").length = 21 := ⟨by decide, by decide, by decide, by decide, by decide⟩
  obtain ⟨first, second, third, fourth, last⟩ := lengths
  have created_ := created.text.fits
  have texts := And.intro (quoted_length jobId) (And.intro (quoted_length goal)
    (And.intro (quoted_length folder) (quoted_length created.text.text)))
  unfold pathMax at folder_
  simp only [jobText, List.length_append, first, second, third, fourth, last, jobStateMax]
  omega

theorem job_loaded (id_ : jobId.length < 128) (goal_ : goal.length < 128) (folder_ : folder.length < pathMax) :
    ∃ state, loadJobState working (some (jobText jobId goal folder created)) = some state := by
  have read : readFileLimit working jobStateMax (some (jobText jobId goal folder created)) =
      some (jobText jobId goal folder created) := read_whole rfl (job_text_short id_ goal_ folder_)
  have other : utf8 "job_id" ≠ utf8 "goal" ∧ utf8 "job_id" ≠ utf8 "folder" ∧ utf8 "goal" ≠ utf8 "folder" := by decide
  rw [loadJobState, read, Option.bind_some, job_text_value]
  refine ⟨(cstr (lossy goal), cstr (lossy folder)), ?_⟩
  simp only [jobFields, stringField, jsonGet, List.map_cons, List.map_nil]
  rw [Json.find, if_neg other.1, Json.find, if_pos rfl, Json.find, if_neg other.2.1, Json.find, if_neg other.2.2, Json.find,
    if_pos rfl]
  rfl

end State

theorem decimal_int_id {n : Int} {c : UInt8} (inside : c ∈ decimalInt n) : (isAlnum c || c == 0x2d || c == 0x5f) = true := by
  rcases decimal_int_bytes inside with rfl | digit
  · rfl
  · simp [isAlnum, digit]

theorem sort_job_id_valid (time pid millis : Int) :
    validJobId (sortJobId time pid millis) = true ∧ (sortJobId time pid millis).length < 128 := by
  have front : utf8 "job-" = [0x6a, 0x6f, 0x62, 0x2d] := by decide
  have dash : utf8 "-" = [0x2d] := by decide
  constructor
  · rw [validJobId, Bool.and_eq_true, decide_eq_true_eq, List.all_eq_true]
    refine ⟨by rw [sortJobId, front]; simp, fun c inside => ?_⟩
    have among := List.mem_of_mem_take inside
    rw [front, dash] at among
    simp only [List.mem_append, List.mem_singleton] at among
    rcases among with ((((word | time) | rfl) | pid) | rfl) | millis
    · exact (show ∀ c ∈ [(0x6a : UInt8), 0x6f, 0x62, 0x2d], (isAlnum c || c == 0x2d || c == 0x5f) = true by decide) c word
    · exact decimal_int_id time
    · rfl
    · exact decimal_int_id pid
    · rfl
    · exact decimal_int_id millis
  · rw [sortJobId, List.length_take]
    omega

theorem valid_id_text {jobId : Bytes} (valid : validJobId jobId = true) : StringText jobId := by
  have letter (c : UInt8) (inside : (isAlnum c || c == 0x2d || c == 0x5f) = true) : c.toNat < 0x80 ∧ c ≠ 0 := by
    simp only [isAlnum, isAlpha, isUpper, isLower, isDigit, Bool.or_eq_true, Bool.and_eq_true, decide_eq_true_eq, beq_iff_eq,
      UInt8.le_iff_toNat_le, ← UInt8.toNat_inj] at inside
    refine ⟨?_, fun nul => ?_⟩
    · have ranges : (0x7a : UInt8).toNat = 122 ∧ (0x5a : UInt8).toNat = 90 ∧ (0x39 : UInt8).toNat = 57 ∧
        (0x2d : UInt8).toNat = 45 ∧ (0x5f : UInt8).toNat = 95 := by decide
      omega
    · rw [nul] at inside
      exact absurd inside (by decide)
  rw [validJobId, Bool.and_eq_true, List.all_eq_true] at valid
  exact ascii_string (fun c inside => (letter c (valid.2 c inside)).1) fun inside => (letter 0 (valid.2 0 inside)).2 rfl

def firstMove (jobId : Bytes) : ActionRequest where
  body := object [member "job_id" (quoted jobId)]
  calls := working
  opens := true
  busy := false
  marks := true
  streams := true
  selection := fun _ => none
  line i :=
    { stopped := decide (i ≠ 0)
      append := { fate := fun _ => .allowed, takes := fun _ => 1 }
      answer := some (utf8 "\x7b\"moved\":true\x7d")
      references := true }

theorem first_move_job {jobId : Bytes} (text : StringText jobId) :
    requestJob (firstMove jobId) = some (.obj [(utf8 "job_id", .str jobId)], jobId) := by
  let items : List (String × Bytes × Jval) := [("job_id", quoted jobId, .str jobId)]
  have shape : (firstMove jobId).body = object (items.map fun item => member item.1 item.2.1) := rfl
  have visible : Visible (firstMove jobId).body := by
    apply object_visible
    intro t inside
    rw [List.mem_singleton.mp inside, quoted_eq]
    exact member_visible _ (quoted_visible jobId)
  have word : (0 : UInt8) ∉ utf8 "job_id" := by decide
  have read := @object_read _ 0 (fun item : String × Bytes × Jval => item.2.1) (fun item => item.2.2) (fun item => item.1)
    items []
    (fun item inside => by
      rw [List.mem_singleton.mp inside]
      exact literal_text word)
    (fun item inside => by
      rw [List.mem_singleton.mp inside]
      exact reads_quoted text)
    (fuelFor (firstMove jobId).body) (by
      simp only [items, firstMove, object, List.length_cons, List.length_nil, List.length_append, fuelFor]
      omega)
  rw [List.append_nil, ← shape] at read
  rw [requestJob, jsonValue, jsonParse, cstr_self (visible_text visible), read]
  simp only [items, List.map_cons, List.map_nil, stringField, jsonGet]
  rw [Json.find, if_pos rfl]
  rfl

theorem first_line_applied (move : Move) (folder : Bytes) (jobId : Bytes) (rest : List Bytes) :
    ∃ call, (applyLines false folder none (firstMove jobId).line 0 (planBody move :: rest)
      { applied := none, moved := 0, total := 0, runs := [] }).1.runs = [⟨call, true⟩] := by
  obtain ⟨value, read, src, dst, op⟩ := plan_body_value move
  have undisturbed : ((firstMove jobId).line 0).append.undisturbed := fun _ => rfl
  have run := @apply_line_run false folder _ _ _ none _ ((firstMove jobId).line 0) value
    { applied := none, moved := 0, total := 0, runs := [] } read src dst
    (journal_line_undisturbed undisturbed (planBody move))
  have said : saidDone value (utf8 "\x7b\"moved\":true\x7d") = true := by
    rw [saidDone, isCopy, op, if_neg (by simp)]
    decide +kernel
  have moved : ((firstMove jobId).line 0).answer.any (saidDone value) = true := said
  rw [moved, List.nil_append] at run
  have goes : ((firstMove jobId).line 0).stopped = false := rfl
  have halts : ((firstMove jobId).line (0 + 1)).stopped = true := rfl
  refine ⟨_, Eq.trans ?_ run⟩
  rw [applyLines, goes, if_neg Bool.false_ne_true]
  cases rest with
  | nil => rfl
  | cons line rest => rw [applyLines, halts, if_pos rfl]

section Partial

variable {call : SortCall} {job : SortJob}

theorem plan_applied (made : SortMade call job) {entry : WatchEntry} {entries : List WatchEntry}
    (some_ : unsorted call = entry :: entries)
    (small : (planText ((unsorted call).map (sortMove call.folder))).length ≤ actionMax) :
    ∃ request run, (requestJob request).map Prod.snd = some job.jobId ∧
      run ∈ (jobsApplyOrUndo false request job.files).runs ∧ run.moved = true := by
  obtain ⟨valid, brief⟩ := sort_job_id_valid call.time call.pid call.millis
  rw [← made.jobId] at valid brief
  have named := first_move_job (valid_id_text valid)
  have folder : call.folder.length < pathMax := by
    have front := made.short entry (by rw [some_]; exact List.mem_cons_self)
    simp only [sortMove, List.length_append] at front
    omega
  obtain ⟨⟨goal, place⟩, state⟩ := @job_loaded job.jobId sortGoal call.folder call.created brief (by decide) folder
  have plan := made.plan
  have files := made.state
  rw [cstr_self (plan_text_clean _)] at plan
  rw [cstr_self job_text_clean] at files
  obtain ⟨rest, head⟩ := plan_lines_head (sortMove call.folder entry) (entries.map (sortMove call.folder))
  rw [← List.map_cons, ← some_] at head
  obtain ⟨mover, runs⟩ := first_line_applied (sortMove call.folder entry) place job.jobId rest
  have whole : readFileLimit working actionMax job.files.plan =
      some (planText ((unsorted call).map (sortMove call.folder))) := by
    rw [plan]
    exact read_whole rfl small
  have journal : readFileLimit working actionMax job.files.applied = none := by
    rw [made.applied]
    rfl
  have calls : (firstMove job.jobId).calls = working := rfl
  refine ⟨firstMove job.jobId, ⟨mover, true⟩, by rw [named]; rfl, ?_, rfl⟩
  have gate : jobsSelectedActionGate false (firstMove job.jobId) (.obj [(utf8 "job_id", .str job.jobId)]) job.files = true := by
    rw [jobsSelectedActionGate, made.organize]
  rw [jobsApplyOrUndo, named]
  dsimp only
  rw [valid, if_neg (by simp; omega), if_neg (by simp [firstMove]), if_neg (by simp [firstMove]), if_neg (by simp [firstMove]),
    jobsApplyOrUndoInner, gate, if_neg (by simp), calls, files, state]
  dsimp only
  rw [if_neg Bool.false_ne_true, whole]
  dsimp only
  rw [if_neg (by simp [firstMove]), journal, head, made.applied]
  dsimp only
  rw [runs]
  exact List.mem_singleton.mpr rfl

-- The plan of a job cannot be carried out just when it is empty, or too large to be read.
theorem partial_plan_applied (told : PartialJob call job) :
    NeverApplied job ↔
      unsorted call = [] ∨ actionMax < (planText ((unsorted call).map (sortMove call.folder))).length := by
  have holds := sort_made told.made
  constructor
  · intro never
    by_contra other
    rw [not_or, Nat.not_lt] at other
    obtain ⟨entry, entries, some_⟩ := List.exists_cons_of_ne_nil other.1
    obtain ⟨request, run, named, inside, moved⟩ := plan_applied holds some_ other.2
    have unmoved := never [request] (fun other inside => by rw [List.mem_singleton.mp inside]; exact named) run
      (List.mem_append_left _ inside)
    rw [moved] at unmoved
    cases unmoved
  · intro cannot requests _ run inside
    have idle : Idle job.files := by
      refine ⟨holds.organize, fun plan same => ?_⟩
      rw [holds.plan] at same
      cases same
      rw [cstr_self (plan_text_clean _)]
      rcases cannot with none_ | large
      · rw [none_]
        exact .inl rfl
      · exact .inr large
    rw [idle_applied idle] at inside
    cases inside

end Partial

def partialRecord : Bytes :=
  utf8 "\x7b\"type\":\"done\",\"partial\":true\x7d\n"

def partialScan : SortCall where
  folder := utf8 "/f"
  output := some (fileRecord (utf8 "a.txt") (utf8 "1") ++ partialRecord)
  time := 1
  pid := 2
  millis := 3
  created := morning
  saves := true
  stores := true
  streams := true

theorem partial_scan_told : (jobsSortByType partialScan).any (fun job => decide (ToldPartial job)) = true ∧
    (unsorted partialScan).length ≠ 0 ∧
      (planText ((unsorted partialScan).map (sortMove partialScan.folder))).length ≤ actionMax := by
  decide +kernel

theorem partial_scan_job : ∃ job, PartialJob partialScan job := by
  obtain ⟨job, made, event⟩ := (Option.any_eq_true _ _).mp partial_scan_told.1
  exact ⟨job, made, of_decide_eq_true event⟩

theorem partial_scan_plan : unsorted partialScan ≠ [] ∧
    (planText ((unsorted partialScan).map (sortMove partialScan.folder))).length ≤ actionMax :=
  ⟨fun none_ => partial_scan_told.2.1 (congrArg List.length none_), partial_scan_told.2.2⟩

theorem partial_plan_applied_one : ∃ job, PartialJob partialScan job ∧
    (NeverApplied job ↔ unsorted partialScan = [] ∨
      actionMax < (planText ((unsorted partialScan).map (sortMove partialScan.folder))).length) := by
  obtain ⟨job, told⟩ := partial_scan_job
  exact ⟨job, told, partial_plan_applied told⟩

theorem partial_plan_moves : ¬ ∀ job, PartialJob partialScan job → NeverApplied job := by
  intro claim
  obtain ⟨job, told⟩ := partial_scan_job
  obtain ⟨some_, small⟩ := partial_scan_plan
  obtain ⟨entry, entries, shape⟩ := List.exists_cons_of_ne_nil some_
  obtain ⟨request, run, named, inside, moved⟩ := plan_applied (sort_made told.made) shape small
  have unmoved := claim job told [request] (fun other among => by rw [List.mem_singleton.mp among]; exact named) run
    (List.mem_append_left _ inside)
  rw [moved] at unmoved
  cases unmoved

end SamosaChat.Jobs
