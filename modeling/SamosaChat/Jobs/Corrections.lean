import SamosaChat.Json.Printed
import SamosaChat.Lib.Scanf

set_option autoImplicit false

namespace SamosaChat.Corrections

open Utf8 Text Iterate Binary64 JsonMeaning
open Json hiding Value Chars Kids Fields

abbrev Members := List (Bytes × Jval)

def tokens (text : Bytes) : List Bytes :=
  (lines text).filter (· ≠ [])

def flagKeys : List Bytes :=
  [utf8 "status", utf8 "reviewed", utf8 "extracted"]

def fieldsOf : Option Jval → Members
  | some (.obj fields) => fields
  | _ => []

def fieldName (fields : Option Jval) (name : Bytes) : Bool :=
  (fieldsOf fields).any fun field => field.1 == name

def chosenFields (record : Jval) (fields : Option Jval) : Option Jval :=
  match fields with
  | some (.obj fields) => some (.obj fields)
  | _ => jsonGet record (utf8 "extracted")

def membersOf : Jval → Option Members
  | .obj members => some members
  | .arr (_ :: _) => none
  | _ => some []

def keptMembers (chosen : Option Jval) : Members → Bytes → Bool → Option (Bytes × Bool)
  | [], out, first => some (out, first)
  | (key, kid) :: members, out, first =>
    if key ∈ flagKeys ∨ fieldName chosen key = true then keptMembers chosen members out first
    else
      (textJsonString (if first then out else out ++ utf8 ",") key).bind fun out =>
        (textJsonValue (out ++ utf8 ":") kid).bind fun out => keptMembers chosen members out false

def writeCorrectedRecord (out : Bytes) (record : Jval) (fields : Option Jval) : Option Bytes :=
  let chosen := chosenFields record fields
  (membersOf record).bind fun members =>
    (keptMembers chosen members (out ++ utf8 "\x7b") true).bind fun (out, first) =>
      let out := if first then out else out ++ utf8 ","
      (textJsonValue (out ++ utf8 "\"status\":\"passed\",\"reviewed\":true,\"extracted\":") (chosen.getD .null)).bind fun out =>
        (textJsonFields false out (fieldsOf chosen)).map (· ++ utf8 "\x7d")

def reviewPending (record : Jval) : Bool :=
  match jsonGet record (utf8 "status") with
  | some (.str status) => status == utf8 "review_required" || status == utf8 "needs_review"
  | _ => false

-- (int)num. What the cast gives outside of int is not said.
def toInt (outside : Double → Int) (num : Double) : Int :=
  match num with
  | .finite negative magnitude =>
    let whole : Int := (magnitude.units / one : Nat)
    let value := if negative then -whole else whole
    if -2 ^ 31 ≤ value ∧ value < 2 ^ 31 then value else outside num
  | _ => outside num

def sameUnit (wanted record : Jval) : Bool :=
  match jsonGet wanted (utf8 "unit_id"), jsonGet record (utf8 "unit_id") with
  | some (.str wanted), some (.str unit) => wanted == unit
  | _, _ => false

def sameIndex (outside : Double → Int) (wanted : Jval) (index : Nat) : Bool :=
  match jsonGet wanted (utf8 "index") with
  | some (.num num) => toInt outside num == index
  | _ => false

structure Correction where
  path : Bytes
  wanted : Jval
  fields : Option Jval

def Correction.picks (outside : Double → Int) (correction : Correction) (record : Jval) (index : Nat) : Bool :=
  sameUnit correction.wanted record || sameIndex outside correction.wanted index

structure Pass where
  output : Bytes
  index : Nat
  found : Bool
  pending : Nat

-- One line of the file. None is returned where the parser leaves the text, or an array is to be corrected.
def correctStep (outside : Double → Int) (correction : Correction) (pass : Pass) (line : Bytes) : Option Pass :=
  (parsed line).bind fun record =>
    let picked := !pass.found && correction.picks outside record pass.index
    let text := if picked then writeCorrectedRecord pass.output record correction.fields else textJsonValue pass.output record
    text.map fun output =>
      { output := output ++ utf8 "\n"
        index := pass.index + 1
        found := pass.found || picked
        pending := if !picked && reviewPending record then pass.pending + 1 else pass.pending }

def correctLines (outside : Double → Int) (correction : Correction) (raw : Bytes) : Option Pass :=
  (tokens (cstr raw)).foldlM (correctStep outside correction) ⟨[], 0, false, 0⟩

def pathMax : Nat := 4096

def pathJoin (left right : Bytes) : Option Bytes :=
  let path := left ++ utf8 "/" ++ right
  if path.length < pathMax then some path else none

def jobStatePath (jobsRoot jobId name : Bytes) : Option Bytes :=
  if jobId ≠ [] ∧ jobId.all fun c => (0x61 ≤ c && c ≤ 0x7a) || (0x41 ≤ c && c ≤ 0x5a) || isDigit c || c == 0x2d || c == 0x5f then
    (pathJoin jobsRoot jobId).bind fun directory => pathJoin directory name
  else none

abbrev Files := Bytes → Option Bytes

def readFileLimit (files : Files) (path : Bytes) (limit : Nat) : Option Bytes :=
  (files path).filter (·.length ≤ limit)

def outputLimit : Nat := 2 ^ 24

def correctionOf (jobsRoot : Bytes) (body : Jval) : Option Correction :=
  match jsonGet body (utf8 "job_id"), jsonGet body (utf8 "item") with
  | some (.str id), some (.obj wanted) =>
    (jobStatePath jobsRoot id (utf8 "results/output.jsonl")).map fun path =>
      { path := path
        wanted := .obj wanted
        fields := jsonGet body (utf8 "fields") }
  | _, _ => none

inductive Reply
  | error (status : Nat) (code message : String)
  | corrected (pending : Nat)

def jobsReviewCorrect (outside : Double → Int) (jobsRoot : Bytes) (files : Files) (saves : Bool) (body : Bytes) :
    Option (Reply × Files) :=
  (parsed body).bind fun body =>
    match correctionOf jobsRoot body with
    | none => some (.error 400 "invalid_correction" "job_id and item are required.", files)
    | some correction =>
      match readFileLimit files correction.path outputLimit with
      | none => some (.error 404 "review_not_found" "No review output exists for that job.", files)
      | some raw =>
        (correctLines outside correction raw).map fun pass =>
          if !pass.found then (.error 404 "review_item_not_found" "That review item is unavailable.", files)
          else if !saves then (.error 500 "review_save_failed" "The correction could not be saved.", files)
          else (.corrected pass.pending, Function.update files correction.path (some pass.output))

-- Where the object that starts at the front closes. Braces inside of strings do not count.
def balanced : Bytes → Nat → Bool → Bool → Option Nat
  | [], _, _, _ => none
  | c :: s, depth, inStr, esc =>
    if inStr then
      if esc then (balanced s depth true false).map (· + 1)
      else if c = 0x5c then (balanced s depth true true).map (· + 1)
      else (balanced s depth (c ≠ 0x22) false).map (· + 1)
    else if c = 0x22 then (balanced s depth true esc).map (· + 1)
    else if c = 0x7b then (balanced s (depth + 1) false esc).map (· + 1)
    else if c = 0x7d ∧ depth = 1 then some 1
    else if c = 0x7d then (balanced s (depth - 1) false esc).map (· + 1)
    else (balanced s depth false esc).map (· + 1)

def firstJsonObject (s : Bytes) : Option Bytes :=
  let start := s.dropWhile (· ≠ 0x7b)
  (balanced start 0 false false).map start.take

def isObject : Option Jval → Bool
  | some (.obj _) => true
  | _ => false

def stringOr (value : Option Jval) : Bytes :=
  match value with
  | some (.str str) => str
  | _ => []

def definitionRecord (out : Bytes) (item : Jval) (extracted : Option Bytes) (passed : Bool) (reviewReason : Option Bytes) : Option Bytes :=
  let read : Option (Option Jval) := match extracted.bind firstJsonObject with
    | none => some none
    | some object => (parsed object).map some
  read.bind fun fields =>
    let passed := passed && isObject fields
    (textJsonString (out ++ utf8 "\x7b\"input_path\":") (stringOr (jsonGet item (utf8 "path")))).bind fun out =>
      (textJsonString (out ++ utf8 ",\"input_sha256\":") (stringOr (jsonGet item (utf8 "input_sha256")))).bind fun out =>
        let flagged := if passed then some (out ++ utf8 ",\"status\":\"passed\",\"extracted\":")
          else (textJsonString (out ++ utf8 ",\"status\":\"review_required\",\"reasons\":[")
            (reviewReason.getD (utf8 "invalid_model_output"))).map (· ++ utf8 "],\"extracted\":")
        flagged.bind fun out =>
          (textJsonValue out (fields.getD .null)).bind fun out =>
            (textJsonFields false out (fieldsOf fields)).map (· ++ utf8 "\x7d")

section Local

variable (outside : Double → Int) (correction : Correction)

def provenance : List Bytes :=
  [utf8 "input_path", utf8 "input_sha256"]

def Apart (chosen : Option Jval) (key : Bytes) : Prop :=
  key ∈ flagKeys ∨ fieldName chosen key = true

instance (chosen : Option Jval) : DecidablePred (Apart chosen) :=
  fun _ => inferInstanceAs (Decidable (_ ∨ _))

def named (key : Bytes) (members : Members) : Members :=
  members.filter fun member => member.1 = key

def LineKept (line line' : Bytes) : Prop :=
  line' = line ∨ ∃ value, Means line value ∧ Means line' value

def chosenOf (fields : Option Jval) (members : Members) : Option Jval :=
  chosenFields (mapped cstr (.obj members)) fields

structure MembersKept (chosen : Option Jval) (members members' : Members) : Prop where
  rest : remaining (Apart chosen) members' = remaining (Apart chosen) members
  provenance : ∀ key ∈ provenance, named key members' = named key members

def RecordCorrected (fields : Option Jval) (line line' : Bytes) : Prop :=
  ∃ members members', Means line (.obj members) ∧ Means line' (.obj members') ∧
    MembersKept (chosenOf fields members) members members'

structure Picked (before : List Bytes) (line : Bytes) : Prop where
  picks : ∃ record, parsed line = some record ∧ correction.picks outside record before.length = true
  first : ∀ i line' record, before[i]? = some line' → parsed line' = some record → correction.picks outside record i = false

structure LocalAt (raw file : Bytes) (before : List Bytes) (line : Bytes) (after before' : List Bytes) (line' : Bytes)
    (after' : List Bytes) : Prop where
  raw : lines raw = before ++ line :: after
  file : lines file = before' ++ line' :: after'
  first : List.Forall₂ LineKept before before'
  last : List.Forall₂ LineKept after after'
  picked : Picked outside correction before line
  corrected : RecordCorrected correction.fields line line'

def Local (raw file : Bytes) : Prop :=
  ∃ before line after before' line' after', LocalAt outside correction raw file before line after before' line' after'

def Survives (line : Bytes) : Prop :=
  (∃ value, Means line value ∧ Writable value) ∨ (parsed line).map written = some line

structure FieldsWhole (chosen : Option Jval) (members : Members) : Prop where
  finite : AllFinite (chosen.getD .null)
  rest : ∀ member ∈ remaining (Apart chosen) members, StringText member.1 ∧ Writable member.2
  names : ∀ field ∈ fieldsOf chosen, Apart chosen (reread field.1)
  provenance : ∀ key ∈ provenance, fieldName chosen key = true → named key (mappedFields reread (fieldsOf chosen)) = named key members

structure CorrectableAt (raw : Bytes) (before : List Bytes) (line : Bytes) (after : List Bytes) : Prop where
  raw : lines raw = before ++ line :: after
  picked : Picked outside correction before line
  survive : ∀ other ∈ before ++ after, Survives other
  record : ∃ members, Means line (.obj members) ∧ FieldsWhole (chosenOf correction.fields members) members

def Correctable (raw : Bytes) : Prop :=
  ∃ before line after, CorrectableAt outside correction raw before line after

end Local

section Texts

variable {mark : UInt8}

theorem pieces_mem {c : UInt8} (other : c ≠ mark) {text : Bytes} (inside : c ∈ text) : ∃ piece ∈ pieces mark text, c ∈ piece := by
  induction text with
  | nil => cases inside
  | cons d text ih =>
    rw [pieces]
    by_cases same : d = mark
    · rw [if_pos same]
      obtain ⟨piece, among, held⟩ := ih ((List.mem_cons.mp inside).resolve_left fun one => other (one.trans same))
      exact ⟨piece, List.mem_cons_of_mem _ among, held⟩
    · rw [if_neg same]
      rcases List.mem_cons.mp inside with rfl | later
      · cases pieces mark text with
        | nil => exact ⟨[c], List.mem_cons_self, List.mem_cons_self⟩
        | cons first more => exact ⟨c :: first, List.mem_cons_self, List.mem_cons_self⟩
      · obtain ⟨piece, among, held⟩ := ih later
        cases shape : pieces mark text with
        | nil =>
          rw [shape] at among
          cases among
        | cons first more =>
          rw [shape] at among
          rcases List.mem_cons.mp among with rfl | among
          · exact ⟨d :: piece, List.mem_cons_self, List.mem_cons_of_mem _ held⟩
          · exact ⟨piece, List.mem_cons_of_mem _ among, held⟩

def terminated (texts : List Bytes) : Bytes :=
  texts.flatMap fun text => text ++ [0x0a]

theorem terminated_lines {texts : List Bytes} (none_ : ∀ text ∈ texts, (0x0a : UInt8) ∉ text) : lines (terminated texts) = texts := by
  induction texts with
  | nil => rfl
  | cons text texts ih =>
    have cut := pieces_cut (none_ text List.mem_cons_self) (terminated texts)
    rw [terminated, List.flatMap_cons, ← terminated, List.append_assoc, List.singleton_append, lines, cut, ← lines,
      ih fun other inside => none_ other (List.mem_cons_of_mem _ inside)]

theorem whole_tokens {raw : Bytes} (text : (0 : UInt8) ∉ raw) (some_ : [] ∉ lines raw) : tokens (cstr raw) = lines raw := by
  rw [cstr_self text, tokens, List.filter_eq_self]
  intro line inside
  rw [decide_eq_true_eq]
  rintro rfl
  exact some_ inside

theorem written_line (value : Jval) : written value ≠ [] ∧ (0 : UInt8) ∉ written value ∧ (0x0a : UInt8) ∉ written value := by
  obtain ⟨c, t, shape, _⟩ := written_head value
  have visible := written_visible value
  refine ⟨by rw [shape]; exact List.cons_ne_nil _ _, visible_text visible, fun inside => ?_⟩
  exact absurd (visible _ inside) (by decide)

end Texts

section Records

def flags (chosen : Option Jval) : Members :=
  [(utf8 "status", .str (utf8 "passed")), (utf8 "reviewed", .bool true), (utf8 "extracted", chosen.getD .null)]

def correctedMembers (chosen : Option Jval) (members : Members) : Members :=
  remaining (Apart chosen) members ++ (flags chosen ++ fieldsOf chosen)

theorem kept_members_eq (chosen : Option Jval) (members : Members) : ∀ (out : Bytes) (first : Bool),
    keptMembers chosen members out first = some (out ++ writtenFields first (remaining (Apart chosen) members),
      first && (remaining (Apart chosen) members).isEmpty) := by
  have marks : utf8 "," = [0x2c] ∧ utf8 ":" = [0x3a] := by decide
  induction members with
  | nil =>
    have none_ : remaining (Apart chosen) [] = [] := rfl
    exact fun out first => by simp [keptMembers, none_, writtenFields]
  | cons member members ih =>
    intro out first
    obtain ⟨key, kid⟩ := member
    rw [keptMembers, remaining_cons]
    by_cases apart : key ∈ flagKeys ∨ fieldName chosen key = true
    · rw [if_pos apart, if_pos (show Apart chosen key from apart), ih]
    · rw [if_neg apart, if_neg (show ¬Apart chosen key from apart), text_json_string_eq, Option.bind_some, text_json_value_eq,
        Option.bind_some, ih, writtenFields, marks.1, marks.2]
      cases first <;> simp

theorem corrected_text (out : Bytes) (record : Jval) (fields : Option Jval) : writeCorrectedRecord out record fields =
    (membersOf record).map fun members => out ++ written (.obj (correctedMembers (chosenFields record fields) members)) := by
  have texts : utf8 "\x7b" = [0x7b] ∧ utf8 "\x7d" = [0x7d] ∧ utf8 "," = [0x2c] ∧
      utf8 "\"status\":\"passed\",\"reviewed\":true,\"extracted\":" =
        writtenFields true [(utf8 "status", .str (utf8 "passed")), (utf8 "reviewed", .bool true)] ++
          0x2c :: 0x22 :: escaped (utf8 "extracted") ++ [0x22, 0x3a] := by decide +kernel
  rw [writeCorrectedRecord]
  cases membersOf record with
  | none => rfl
  | some members =>
    rw [Option.bind_some, Option.map_some, kept_members_eq, Option.bind_some]
    dsimp only
    rw [text_json_value_eq, Option.bind_some, text_json_fields_eq, Option.map_some, texts.1, texts.2.1, texts.2.2.1, texts.2.2.2, correctedMembers, flags, written,
      written_fields_append, written_fields_append, writtenFields, writtenFields, writtenFields]
    cases remaining (Apart (chosenFields record fields)) members with
    | nil => simp [writtenFields]
    | cons member rest => simp [writtenFields]

end Records

section Run

variable {outside : Double → Int} {correction : Correction} {before after : List Bytes} {line : Bytes}

def passed (pass : Pass) (records : List Jval) : Pass where
  output := pass.output ++ terminated (records.map written)
  index := pass.index + records.length
  found := pass.found
  pending := pass.pending + records.countP reviewPending

theorem newline : utf8 "\n" = [0x0a] := by decide

theorem passed_passed (pass : Pass) (first second : List Jval) : passed (passed pass first) second = passed pass (first ++ second) := by
  simp [passed, terminated, Nat.add_assoc]

theorem quiet_step {pass : Pass} {record : Jval} (read : parsed line = some record)
    (quiet : pass.found = true ∨ correction.picks outside record pass.index = false) :
    correctStep outside correction pass line = some (passed pass [record]) := by
  have picked : (!pass.found && correction.picks outside record pass.index) = false := by
    rcases quiet with found | other
    · rw [found, Bool.not_true, Bool.false_and]
    · rw [other, Bool.and_false]
  rw [correctStep, read, Option.bind_some]
  dsimp only
  rw [picked, text_json_value_eq]
  cases pending : reviewPending record <;> simp [passed, terminated, newline, pending]

theorem quiet_run (texts : List Bytes) : ∀ pass : Pass,
    (pass.found = true ∨ ∀ i line record, texts[i]? = some line → parsed line = some record →
      correction.picks outside record (pass.index + i) = false) →
    texts.foldlM (correctStep outside correction) pass = (texts.mapM parsed).map (passed pass) := by
  induction texts with
  | nil => exact fun pass _ => by simp [passed, terminated]
  | cons text texts ih =>
    intro pass quiet
    rw [List.foldlM_cons, List.mapM_cons]
    cases read : parsed text with
    | none => simp [correctStep, read]
    | some record =>
      have first : correctStep outside correction pass text = some (passed pass [record]) :=
        quiet_step read (quiet.imp_right fun none_ => none_ 0 text record rfl read)
      have later := ih (passed pass [record]) (quiet.imp_right fun none_ i line other among reads => by
        have here := none_ (i + 1) line other among reads
        rwa [Nat.add_comm i 1, ← Nat.add_assoc] at here)
      rw [first, Option.bind_eq_bind, Option.bind_some, later]
      cases texts.mapM parsed with
      | none => rfl
      | some records =>
        simp only [Option.map_some, Option.bind_eq_bind, Option.bind_some, Option.pure_def, passed_passed, List.singleton_append]

theorem run_output {texts : List Bytes} : ∀ {pass pass' : Pass}, texts.foldlM (correctStep outside correction) pass = some pass' →
    ∃ records : List Jval, pass'.output = pass.output ++ terminated (records.map written) := by
  induction texts with
  | nil =>
    intro pass pass' run
    cases run
    exact ⟨[], by simp [terminated]⟩
  | cons text texts ih =>
    intro pass pass' run
    rw [List.foldlM_cons] at run
    obtain ⟨middle, step, later⟩ := Option.bind_eq_some_iff.mp run
    obtain ⟨records, same⟩ := ih later
    obtain ⟨record, read, wrote⟩ := Option.bind_eq_some_iff.mp step
    obtain ⟨output, text_, rfl⟩ := Option.map_eq_some_iff.mp wrote
    have front : ∃ value, output = pass.output ++ written value := by
      split_ifs at text_
      · rw [corrected_text] at text_
        obtain ⟨members, _, rfl⟩ := Option.map_eq_some_iff.mp text_
        exact ⟨_, rfl⟩
      · rw [text_json_value_eq] at text_
        cases text_
        exact ⟨record, rfl⟩
    obtain ⟨value, rfl⟩ := front
    exact ⟨value :: records, by rw [same]; simp [terminated, newline]⟩

theorem picked_run (picked : Picked outside correction before line) :
    (before ++ line :: after).foldlM (correctStep outside correction) ⟨[], 0, false, 0⟩ =
      (before.mapM parsed).bind fun firsts => (parsed line).bind fun record => (membersOf record).bind fun members =>
        (after.mapM parsed).map fun lasts =>
          let text := written (.obj (correctedMembers (chosenFields record correction.fields) members))
          passed ⟨terminated (firsts.map written ++ [text]), firsts.length + 1, true, firsts.countP reviewPending⟩ lasts := by
  obtain ⟨record, read, picks⟩ := picked.picks
  have quiet : before.foldlM (correctStep outside correction) ⟨[], 0, false, 0⟩ =
      (before.mapM parsed).map (passed ⟨[], 0, false, 0⟩) :=
    quiet_run before _ (.inr fun i line' other among reads => by
      rw [Nat.zero_add]
      exact picked.first i line' other among reads)
  rw [List.foldlM_append, quiet]
  cases all : before.mapM parsed with
  | none => rfl
  | some firsts =>
    have size : firsts.length = before.length := by simpa using (congrArg List.length (map_m_some_iff.mp all)).symm
    rw [← size] at picks
    rw [Option.map_some, Option.bind_eq_bind, Option.bind_some, Option.bind_some, List.foldlM_cons, read, Option.bind_some, correctStep,
      read, Option.bind_some]
    simp only [passed, Nat.zero_add, List.nil_append, picks, Bool.not_false, Bool.true_and, if_true, corrected_text]
    cases membersOf record with
    | none => rfl
    | some members =>
      simp only [Option.map_some, Option.bind_eq_bind, Option.bind_some, Bool.or_true, Bool.not_true, Bool.false_and]
      have front (text : Bytes) : terminated (firsts.map written) ++ text ++ utf8 "\n" = terminated (firsts.map written ++ [text]) := by
        simp [terminated, newline]
      rw [quiet_run after _ (.inl rfl), front]
      rfl

end Run

section Kept

variable {line : Bytes} {chosen : Option Jval} {members : Members}

theorem line_kept_iff {record : Jval} (read : parsed line = some record) : LineKept line (written record) ↔ Survives line := by
  constructor
  · rintro (same | ⟨value, means, means'⟩)
    · exact .inr (by rw [read, Option.map_some, same])
    · cases read.symm.trans (means_parsed means)
      obtain ⟨finite, same⟩ := (means_reread value value).mp means'
      exact .inl ⟨value, means, (writable_iff value).mpr ⟨finite, same.symm⟩⟩
  · rintro (⟨value, means, writable⟩ | same)
    · cases read.symm.trans (means_parsed means)
      obtain ⟨finite, same⟩ := (writable_iff value).mp writable
      exact .inr ⟨value, means, (means_reread value value).mpr ⟨finite, same.symm⟩⟩
    · rw [read, Option.map_some, Option.some.injEq] at same
      exact .inl same

theorem survives_parsed (survives : Survives line) : ∃ record, parsed line = some record := by
  rcases survives with ⟨value, means, _⟩ | same
  · exact ⟨_, means_parsed means⟩
  · obtain ⟨record, read, _⟩ := Option.map_eq_some_iff.mp same
    exact ⟨record, read⟩

theorem kept_text {record : Jval} (kept : LineKept line (written record)) : line ≠ [] ∧ (0 : UInt8) ∉ line := by
  rcases kept with same | ⟨value, means, _⟩
  · have plain := written_line record
    rw [same] at plain
    exact ⟨plain.1, plain.2.1⟩
  · exact ⟨means_some means, means_clean means⟩

theorem name_texts : (∀ key ∈ flagKeys, (0 : UInt8) ∉ key ∧ ∀ c ∈ key, c < 0x80) ∧
    ∀ key ∈ provenance, ((0 : UInt8) ∉ key ∧ ∀ c ∈ key, c < 0x80) ∧ key ∉ flagKeys := by decide +kernel

theorem fields_of_cases (chosen : Option Jval) : fieldsOf chosen = [] ∨ ∃ fields, chosen = some (.obj fields) := by
  rcases chosen with _ | _ | _ | _ | _ | _ | fields
  · exact .inl rfl
  · exact .inl rfl
  · exact .inl rfl
  · exact .inl rfl
  · exact .inl rfl
  · exact .inl rfl
  · exact .inr ⟨fields, rfl⟩

theorem fields_cut (cut : chosen.map (mapped cstr) = chosen) : mappedFields cstr (fieldsOf chosen) = fieldsOf chosen := by
  rcases fields_of_cases chosen with none_ | ⟨fields, rfl⟩
  · rw [none_]
    rfl
  · exact Jval.obj.inj (Option.some.inj cut)

theorem apart_clean (cut : chosen.map (mapped cstr) = chosen) (key : Bytes) (apart : Apart chosen key) : (0 : UInt8) ∉ key := by
  rcases apart with flag | field
  · exact (name_texts.1 key flag).1
  · obtain ⟨member, inside, same⟩ := List.any_eq_true.mp field
    have whole := fields_cut cut
    rw [mapped_fields_eq] at whole
    rw [← whole] at inside
    obtain ⟨other, _, rfl⟩ := List.mem_map.mp inside
    rw [← beq_iff_eq.mp same]
    exact cstr_text _

def rewritten (chosen : Option Jval) (members : Members) : Members :=
  mappedFields reread (remainingCut (Apart chosen) members ++ (flags chosen ++ fieldsOf chosen))

theorem mapped_append (f : Bytes → Bytes) (first second : Members) :
    mappedFields f (first ++ second) = mappedFields f first ++ mappedFields f second := by
  rw [mapped_fields_eq, mapped_fields_eq, mapped_fields_eq, List.map_append]

theorem flags_cut (cut : chosen.map (mapped cstr) = chosen) : mappedFields cstr (flags chosen) = flags chosen := by
  have texts : cstr (utf8 "status") = utf8 "status" ∧ cstr (utf8 "passed") = utf8 "passed" ∧ cstr (utf8 "reviewed") = utf8 "reviewed" ∧
      cstr (utf8 "extracted") = utf8 "extracted" := by decide +kernel
  have value : mapped cstr (chosen.getD .null) = chosen.getD .null := by
    cases chosen with
    | none => rfl
    | some value => exact Option.some.inj cut
  rw [flags, mappedFields, mappedFields, mappedFields, mappedFields, mapped, mapped, texts.1, texts.2.1, texts.2.2.1, texts.2.2.2, value]

theorem finite_chosen (chosen : Option Jval) (members : Members) :
    AllFiniteFields (remainingCut (Apart chosen) members ++ (flags chosen ++ fieldsOf chosen)) ↔
      AllFinite (chosen.getD .null) ∧ AllFiniteFields (remainingCut (Apart chosen) members) := by
  have fields : AllFinite (chosen.getD .null) → ∀ field ∈ fieldsOf chosen, AllFinite field.2 := by
    intro finite field inside
    rcases fields_of_cases chosen with none_ | ⟨fields, rfl⟩
    · rw [none_] at inside
      cases inside
    · exact (all_finite_fields_iff fields).mp finite field inside
  rw [all_finite_fields_iff, all_finite_fields_iff, List.forall_mem_append, List.forall_mem_append]
  constructor
  · exact fun ⟨rest, flag, _⟩ => ⟨flag (utf8 "extracted", chosen.getD .null) (by simp [flags]), rest⟩
  · rintro ⟨finite, rest⟩
    refine ⟨rest, ?_, fields finite⟩
    intro member inside
    rw [flags, List.mem_cons, List.mem_cons, List.mem_singleton] at inside
    rcases inside with rfl | rfl | rfl
    · exact trivial
    · exact trivial
    · exact finite

theorem rewritten_means (cut : chosen.map (mapped cstr) = chosen) (members members' : Members) :
    Means (written (.obj (correctedMembers chosen (mappedFields cstr members)))) (.obj members') ↔
      (AllFinite (chosen.getD .null) ∧ AllFiniteFields (remainingCut (Apart chosen) members)) ∧ members' = rewritten chosen members := by
  have shape : Jval.obj (correctedMembers chosen (mappedFields cstr members)) =
      mapped cstr (.obj (remainingCut (Apart chosen) members ++ (flags chosen ++ fieldsOf chosen))) := by
    rw [correctedMembers, mapped, mapped_append, mapped_append, remaining_mapped, flags_cut cut, fields_cut cut]
  rw [shape, means_reread, AllFinite, finite_chosen, mapped, Jval.obj.injEq]
  rfl

theorem reread_name {key name : Bytes} (ascii : ∀ c ∈ key, c < 0x80) (same : reread name = key) : cstr name = key := by
  rw [reread] at same
  rw [← same] at ascii
  rwa [lossy_ascii ascii] at same

theorem reread_ascii {key : Bytes} (text : (0 : UInt8) ∉ key ∧ ∀ c ∈ key, c < 0x80) : reread key = key :=
  (reread_self key).mpr (ascii_string (fun c inside => UInt8.lt_iff_toNat_lt.mp (text.2 c inside)) text.1)

theorem reread_flags (chosen : Option Jval) : ∀ member ∈ mappedFields reread (flags chosen), member.1 ∈ flagKeys := by
  rw [mapped_fields_eq]
  intro member inside
  obtain ⟨flag, among, rfl⟩ := List.mem_map.mp inside
  have key : flag.1 ∈ flagKeys := by
    rw [flags, List.mem_cons, List.mem_cons, List.mem_singleton] at among
    rcases among with rfl | rfl | rfl <;> simp [flagKeys]
  rw [reread_ascii (name_texts.1 _ key)]
  exact key

theorem named_rewritten {key : Bytes} (own : key ∈ provenance) (field : fieldName chosen key = true) :
    named key (rewritten chosen members) = named key (mappedFields reread (fieldsOf chosen)) := by
  obtain ⟨text, other⟩ := name_texts.2 key own
  have kept : named key (mappedFields reread (remainingCut (Apart chosen) members)) = [] := by
    rw [named, List.filter_eq_nil_iff, mapped_fields_eq]
    intro member inside same
    obtain ⟨before, among, rfl⟩ := List.mem_map.mp inside
    have name := reread_name text.2 (decide_eq_true_eq.mp same)
    exact (mem_remaining_cut.mp among).2 (.inr (name ▸ field))
  have flag : named key (mappedFields reread (flags chosen)) = [] := by
    rw [named, List.filter_eq_nil_iff]
    intro member inside same
    exact other (decide_eq_true_eq.mp same ▸ reread_flags chosen member inside)
  rw [rewritten, mapped_append, mapped_append, named, List.filter_append, List.filter_append, ← named, ← named, ← named, kept, flag,
    List.nil_append, List.nil_append]

theorem named_remaining {key : Bytes} (other : ¬Apart chosen key) (members : Members) :
    named key (remaining (Apart chosen) members) = named key members := by
  rw [named, remaining, List.filter_filter]
  apply List.filter_congr
  intro member _
  by_cases same : member.1 = key
  · rw [same]
    simp [other]
  · simp [same]

theorem rewritten_texts (finite : AllFinite (chosen.getD .null) ∧ AllFiniteFields (remainingCut (Apart chosen) members)) :
    ∀ member ∈ rewritten chosen members, StringText member.1 ∧ Writable member.2 :=
  (writable_fields_iff _).mp ((writable_reread (.obj _)).mpr ((finite_chosen chosen members).mpr finite))

theorem kept_iff (cut : chosen.map (mapped cstr) = chosen) :
    (AllFinite (chosen.getD .null) ∧ AllFiniteFields (remainingCut (Apart chosen) members)) ∧
      MembersKept chosen members (rewritten chosen members) ↔ FieldsWhole chosen members := by
  have split : remaining (Apart chosen) (rewritten chosen members) =
      remaining (Apart chosen) (mappedFields reread (remainingCut (Apart chosen) members)) ++
        remaining (Apart chosen) (mappedFields reread (fieldsOf chosen)) := by
    have none_ : remaining (Apart chosen) (mappedFields reread (flags chosen)) = [] :=
      remaining_none fun member inside => .inl (reread_flags chosen member inside)
    rw [rewritten, mapped_append, mapped_append, remaining_append, remaining_append, none_, List.nil_append]
  have whole := @remaining_iff (Apart chosen) _ members (apart_clean cut)
  have again : remaining (Apart chosen) (remaining (Apart chosen) members) = remaining (Apart chosen) members :=
    remaining_self fun member inside => (mem_remaining.mp inside).2
  constructor
  · rintro ⟨finite, kept⟩
    have rest : ∀ member ∈ remaining (Apart chosen) members, StringText member.1 ∧ Writable member.2 := by
      rw [← kept.rest]
      exact fun member inside => rewritten_texts finite member (mem_remaining.mp inside).1
    have none_ : remaining (Apart chosen) (mappedFields reread (fieldsOf chosen)) = [] := by
      have same := kept.rest
      rw [split, (whole.mpr rest).2, again] at same
      exact List.append_right_eq_self.mp same
    refine ⟨finite.1, rest, fun field inside => ?_, fun key own field => ?_⟩
    · by_contra other
      have among : (reread field.1, mapped reread field.2) ∈ remaining (Apart chosen) (mappedFields reread (fieldsOf chosen)) :=
        mem_remaining.mpr ⟨by rw [mapped_fields_eq]; exact List.mem_map_of_mem inside, other⟩
      rw [none_] at among
      cases among
    · rw [← named_rewritten own field]
      exact kept.provenance key own
  · intro fieldsWhole
    obtain ⟨finite, same⟩ := whole.mpr fieldsWhole.rest
    have none_ : remaining (Apart chosen) (mappedFields reread (fieldsOf chosen)) = [] := by
      apply remaining_none
      rw [mapped_fields_eq]
      intro member inside
      obtain ⟨field, among, rfl⟩ := List.mem_map.mp inside
      exact fieldsWhole.names field among
    have rest : remaining (Apart chosen) (rewritten chosen members) = remaining (Apart chosen) members := by
      rw [split, same, again, none_, List.append_nil]
    refine ⟨⟨fieldsWhole.finite, finite⟩, rest, fun key own => ?_⟩
    by_cases field : fieldName chosen key = true
    · rw [named_rewritten own field]
      exact fieldsWhole.provenance key own field
    · have other : ¬Apart chosen key := not_or.mpr ⟨(name_texts.2 key own).2, field⟩
      rw [← named_remaining other, rest, named_remaining other]

end Kept

section Correctable

variable {outside : Double → Int} {correction : Correction} {raw line : Bytes} {before after : List Bytes}

theorem chosen_cut {fields : Option Jval} (cut : fields.map (mapped cstr) = fields) (members : Members) :
    (chosenOf fields members).map (mapped cstr) = chosenOf fields members := by
  have record : mapped cstr (mapped cstr (.obj members)) = mapped cstr (.obj members) := by
    have twice : cstr ∘ cstr = cstr := funext fun bytes => cstr_self (cstr_text bytes)
    rw [mapped_mapped, twice]
  have existing : (jsonGet (mapped cstr (.obj members)) (utf8 "extracted")).map (mapped cstr) =
      jsonGet (mapped cstr (.obj members)) (utf8 "extracted") := by
    cases found : jsonGet (mapped cstr (.obj members)) (utf8 "extracted") with
    | none => rfl
    | some value => exact congrArg some (get_cut record found)
  unfold chosenOf chosenFields
  split
  · exact cut
  · exact existing

theorem record_iff {fields : Option Jval} (cut : fields.map (mapped cstr) = fields) {record : Jval} {kept : Members}
    (read : parsed line = some record) (shape : membersOf record = some kept) :
    RecordCorrected fields line (written (.obj (correctedMembers (chosenFields record fields) kept))) ↔
      ∃ members, Means line (.obj members) ∧ FieldsWhole (chosenOf fields members) members := by
  have same {members : Members} (means : Means line (.obj members)) :
      record = mapped cstr (.obj members) ∧ kept = mappedFields cstr members := by
    cases read.symm.trans (means_parsed means)
    cases shape
    exact ⟨rfl, rfl⟩
  constructor
  · rintro ⟨members, members', means, means', kept'⟩
    obtain ⟨rfl, rfl⟩ := same means
    obtain ⟨finite, rfl⟩ := (rewritten_means (chosen_cut cut members) members members').mp means'
    exact ⟨members, means, (kept_iff (chosen_cut cut members)).mp ⟨finite, kept'⟩⟩
  · rintro ⟨members, means, fieldsWhole⟩
    obtain ⟨rfl, rfl⟩ := same means
    obtain ⟨finite, kept'⟩ := (kept_iff (chosen_cut cut members)).mpr fieldsWhole
    exact ⟨members, _, means, (rewritten_means (chosen_cut cut members) members _).mpr ⟨finite, rfl⟩, kept'⟩

theorem lines_kept_iff {texts : List Bytes} : ∀ {records : List Jval}, texts.map parsed = records.map some →
    (List.Forall₂ LineKept texts (records.map written) ↔ ∀ text ∈ texts, Survives text) := by
  induction texts with
  | nil =>
    intro records read
    rw [List.map_eq_nil_iff.mp read.symm]
    exact iff_of_true .nil fun text inside => by cases inside
  | cons text texts ih =>
    intro records read
    cases records with
    | nil => cases read
    | cons record records =>
      rw [List.map_cons, List.map_cons, List.cons.injEq] at read
      rw [List.map_cons, List.forall₂_cons, List.forall_mem_cons, line_kept_iff read.1, ih read.2]

theorem survives_all {texts : List Bytes} (survive : ∀ text ∈ texts, Survives text) :
    ∃ records : List Jval, texts.map parsed = records.map some := by
  induction texts with
  | nil => exact ⟨[], rfl⟩
  | cons text texts ih =>
    obtain ⟨first, rest⟩ := List.forall_mem_cons.mp survive
    obtain ⟨record, read⟩ := survives_parsed first
    obtain ⟨records, all⟩ := ih rest
    exact ⟨record :: records, by rw [List.map_cons, List.map_cons, read, all]⟩

theorem survives_text (survives : Survives line) : line ≠ [] ∧ (0 : UInt8) ∉ line := by
  obtain ⟨record, read⟩ := survives_parsed survives
  exact kept_text ((line_kept_iff read).mpr survives)

theorem lines_clean (clean : ∀ line ∈ lines raw, line ≠ [] ∧ (0 : UInt8) ∉ line) : tokens (cstr raw) = lines raw := by
  have text : (0 : UInt8) ∉ raw := by
    intro inside
    obtain ⟨line, among, held⟩ := @pieces_mem 0x0a 0 (by decide) raw inside
    exact (clean line among).2 held
  exact whole_tokens text fun empty => (clean [] empty).1 rfl

theorem local_clean {file line' : Bytes} {before' after' : List Bytes}
    (at_ : LocalAt outside correction raw file before line after before' line' after')
    (wrote : ∀ line ∈ lines file, ∃ record, line = written record) : ∀ line ∈ lines raw, line ≠ [] ∧ (0 : UInt8) ∉ line := by
  have kept {texts texts' : List Bytes} (all : List.Forall₂ LineKept texts texts')
      (among : ∀ line ∈ texts', line ∈ lines file) : ∀ line ∈ texts, line ≠ [] ∧ (0 : UInt8) ∉ line := by
    induction all with
    | nil => exact fun line inside => by cases inside
    | @cons text text' _ _ one later ih =>
      obtain ⟨record, rfl⟩ := wrote text' (among text' List.mem_cons_self)
      rw [List.forall_mem_cons]
      exact ⟨kept_text one, ih fun line inside => among line (List.mem_cons_of_mem _ inside)⟩
  obtain ⟨members, _, means, _⟩ := at_.corrected
  rw [at_.raw, List.forall_mem_append, List.forall_mem_cons]
  refine ⟨kept at_.first fun line inside => ?_, ⟨means_some means, means_clean means⟩, kept at_.last fun line inside => ?_⟩
  · rw [at_.file]
    exact List.mem_append_left _ inside
  · rw [at_.file]
    exact List.mem_append_right _ (List.mem_cons_of_mem _ inside)

theorem terminated_written {texts : List Bytes} (wrote : ∀ text ∈ texts, ∃ record, text = written record) :
    lines (terminated texts) = texts :=
  terminated_lines fun text inside => by
    obtain ⟨record, rfl⟩ := wrote text inside
    exact (written_line record).2.2

theorem written_all {records : List Jval} : ∀ text ∈ records.map written, ∃ record, text = written record := by
  intro text inside
  obtain ⟨record, _, rfl⟩ := List.mem_map.mp inside
  exact ⟨record, rfl⟩

theorem picked_lines {pass : Pass} (picked : Picked outside correction before line)
    (run : (before ++ line :: after).foldlM (correctStep outside correction) ⟨[], 0, false, 0⟩ = some pass) :
    ∃ (firsts : List Jval) (record : Jval) (members : Members) (lasts : List Jval), before.map parsed = firsts.map some ∧ parsed line = some record ∧
      membersOf record = some members ∧ after.map parsed = lasts.map some ∧ lines pass.output = firsts.map written ++
        written (.obj (correctedMembers (chosenFields record correction.fields) members)) :: lasts.map written := by
  rw [picked_run picked] at run
  obtain ⟨firsts, first, run⟩ := Option.bind_eq_some_iff.mp run
  obtain ⟨record, read, run⟩ := Option.bind_eq_some_iff.mp run
  obtain ⟨members, shape, run⟩ := Option.bind_eq_some_iff.mp run
  obtain ⟨lasts, last, rfl⟩ := Option.map_eq_some_iff.mp run
  refine ⟨firsts, record, members, lasts, map_m_some_iff.mp first, read, shape, map_m_some_iff.mp last, ?_⟩
  rw [passed, terminated, terminated, ← List.flatMap_append, ← terminated, List.append_assoc, List.singleton_append, terminated_written]
  intro text inside
  rcases List.mem_append.mp inside with among | among
  · exact written_all text among
  · rcases List.mem_cons.mp among with rfl | among
    · exact ⟨_, rfl⟩
    · exact written_all text among

theorem correct_lines_iff (cut : correction.fields.map (mapped cstr) = correction.fields) :
    (∃ pass, correctLines outside correction raw = some pass ∧ pass.found = true ∧ Local outside correction raw pass.output) ↔
      Correctable outside correction raw := by
  constructor
  · rintro ⟨pass, run, _, before, line, after, before', line', after', at_⟩
    have wrote : ∀ line ∈ lines pass.output, ∃ record, line = written record := by
      obtain ⟨records, output⟩ := run_output run
      rw [output, List.nil_append, terminated_written written_all]
      exact written_all
    rw [correctLines, lines_clean (local_clean at_ wrote), at_.raw] at run
    obtain ⟨firsts, record, members, lasts, first, read, shape, last, output⟩ := picked_lines at_.picked run
    have sizes : before'.length = (firsts.map written).length := by
      rw [← at_.first.length_eq, List.length_map]
      simpa using congrArg List.length first
    obtain ⟨rfl, tail⟩ := List.append_inj (at_.file.symm.trans output) sizes
    cases tail
    refine ⟨before, line, after, at_.raw, at_.picked, ?_, (record_iff cut read shape).mp at_.corrected⟩
    rw [List.forall_mem_append]
    exact ⟨(lines_kept_iff first).mp at_.first, (lines_kept_iff last).mp at_.last⟩
  · rintro ⟨before, line, after, at_⟩
    obtain ⟨members, means, fieldsWhole⟩ := at_.record
    obtain ⟨survives, survives'⟩ := List.forall_mem_append.mp at_.survive
    have clean : ∀ line ∈ lines raw, line ≠ [] ∧ (0 : UInt8) ∉ line := by
      rw [at_.raw, List.forall_mem_append, List.forall_mem_cons]
      exact ⟨fun line inside => survives_text (survives line inside), ⟨means_some means, means_clean means⟩,
        fun line inside => survives_text (survives' line inside)⟩
    obtain ⟨firsts, first⟩ := survives_all survives
    obtain ⟨lasts, last⟩ := survives_all survives'
    have read : parsed line = some (.obj (mappedFields cstr members)) := means_parsed means
    have run : ∃ pass, correctLines outside correction raw = some pass ∧ pass.found = true := by
      rw [correctLines, lines_clean clean, at_.raw, picked_run at_.picked, map_m_some_iff.mpr first, read, Option.bind_some, Option.bind_some,
        membersOf, Option.bind_some, map_m_some_iff.mpr last]
      exact ⟨_, rfl, rfl⟩
    obtain ⟨pass, run, found⟩ := run
    refine ⟨pass, run, found, ?_⟩
    rw [correctLines, lines_clean clean, at_.raw] at run
    obtain ⟨firsts', record, members', lasts', first', read', shape', last', output⟩ := picked_lines at_.picked run
    exact ⟨before, line, after, _, _, _, at_.raw, output, (lines_kept_iff first').mpr survives, (lines_kept_iff last').mpr survives',
      at_.picked, (record_iff cut read' shape').mpr ⟨members, means, fieldsWhole⟩⟩

end Correctable

section Requests

variable {jobsRoot body raw : Bytes} {files : Files} {correction : Correction}

def Asked (jobsRoot : Bytes) (files : Files) (body : Bytes) (correction : Correction) (raw : Bytes) : Prop :=
  ∃ request, parsed body = some request ∧ correctionOf jobsRoot request = some correction ∧
    readFileLimit files correction.path outputLimit = some raw

theorem asked_cut (asked : Asked jobsRoot files body correction raw) : correction.fields.map (mapped cstr) = correction.fields := by
  obtain ⟨request, read, found, _⟩ := asked
  have cut := parsed_cut read
  unfold correctionOf at found
  split at found
  · obtain ⟨path, _, rfl⟩ := Option.map_eq_some_iff.mp found
    cases fields : jsonGet request (utf8 "fields") with
    | none => rfl
    | some value => exact congrArg some (get_cut cut fields)
  · cases found

theorem accepted_iff (asked : Asked jobsRoot files body correction raw) (outside : Double → Int) (saves : Bool) (pending : Nat)
    (file : Bytes) : jobsReviewCorrect outside jobsRoot files saves body =
        some (.corrected pending, Function.update files correction.path (some file)) ↔
      saves = true ∧ ∃ pass, correctLines outside correction raw = some pass ∧ pass.found = true ∧ pass.pending = pending ∧
        pass.output = file := by
  obtain ⟨request, read, found, held⟩ := asked
  rw [jobsReviewCorrect, read, Option.bind_some, found]
  dsimp only
  rw [held]
  dsimp only
  rw [Option.map_eq_some_iff]
  constructor
  · rintro ⟨pass, run, same⟩
    split_ifs at same with lost refused
    · cases (Prod.mk.inj same).1
    · cases (Prod.mk.inj same).1
    · rw [Prod.mk.injEq, Reply.corrected.injEq] at same
      have here := congrFun same.2 correction.path
      rw [Function.update_self, Function.update_self, Option.some.injEq] at here
      exact ⟨by simpa using refused, pass, run, by simpa using lost, same.1, here⟩
  · rintro ⟨saved, pass, run, picked, rfl, rfl⟩
    exact ⟨pass, run, by simp [saved, picked]⟩

-- A correction is accepted and is local just when every other line survives being read and written again, and the
-- picked line is a record of which the same holds and to which no field does what is the program's own.
theorem correction_local_iff (outside : Double → Int) (jobsRoot : Bytes) (files : Files) (saves : Bool) (body : Bytes) :
    (∃ correction raw pending file, Asked jobsRoot files body correction raw ∧
        jobsReviewCorrect outside jobsRoot files saves body =
          some (.corrected pending, Function.update files correction.path (some file)) ∧
        Local outside correction raw file) ↔
      saves = true ∧ ∃ correction raw, Asked jobsRoot files body correction raw ∧ Correctable outside correction raw := by
  constructor
  · rintro ⟨correction, raw, pending, file, asked, accepted, local_⟩
    obtain ⟨saved, pass, run, found, _, rfl⟩ := (accepted_iff asked outside saves pending file).mp accepted
    exact ⟨saved, correction, raw, asked, (correct_lines_iff (asked_cut asked)).mp ⟨pass, run, found, local_⟩⟩
  · rintro ⟨saved, correction, raw, asked, correctable⟩
    obtain ⟨pass, run, found, local_⟩ := (correct_lines_iff (asked_cut asked)).mpr correctable
    exact ⟨correction, raw, pass.pending, pass.output, asked,
      (accepted_iff asked outside saves _ _).mpr ⟨saved, pass, run, found, rfl, rfl⟩, local_⟩

def fieldItem : Jval :=
  record [("path", .str (utf8 "/a")), ("input_sha256", .str (utf8 "0"))]

def fieldMembers : List (String × Jval) :=
  [("input_path", .str (utf8 "/a")), ("input_sha256", .str (utf8 "0")), ("status", .str (utf8 "passed")),
    ("extracted", record [("input_path", .str (utf8 "x"))]), ("input_path", .str (utf8 "x"))]

def fieldRequest : List (String × Jval) :=
  [("job_id", .str (utf8 "j")), ("item", record [("index", .num (integer false 0 zero_small))]),
    ("fields", record [("input_path", .str (utf8 "y"))])]

def fieldCorrection : Correction where
  path := utf8 "/jobs/j/results/output.jsonl"
  wanted := record [("index", .num (integer false 0 zero_small))]
  fields := some (record [("input_path", .str (utf8 "y"))])

def fieldWords : List String :=
  ["input_path", "input_sha256", "status", "extracted", "job_id", "item", "fields", "index", "/a", "0", "passed", "x", "y", "j"]

theorem field_facts : definitionRecord [] fieldItem (some (utf8 "\x7b\"input_path\":\"x\"\x7d")) true none =
      some (written (record fieldMembers)) ∧ (∀ word ∈ fieldWords, (0 : UInt8) ∉ utf8 word) ∧
    (∀ text ∈ [utf8 "/a", utf8 "0", utf8 "passed", utf8 "x"], text ≠ utf8 "y") ∧
    jobStatePath (utf8 "/jobs") (utf8 "j") (utf8 "results/output.jsonl") = some fieldCorrection.path ∧
    (terminated [written (record fieldMembers)]).length ≤ outputLimit ∧
    (correctLines (fun _ => 0) fieldCorrection (terminated [written (record fieldMembers)])).map (·.found) = some true ∧
    fieldName fieldCorrection.fields (utf8 "input_path") = true := by
  decide +kernel

theorem field_text : ∀ word ∈ fieldWords, StringText (utf8 word) :=
  fun word inside => literal_text (field_facts.2.1 word inside)

theorem field_writable : Writable (record fieldMembers) ∧ Writable (record fieldRequest) := by
  have text := field_text
  simp only [fieldWords, List.forall_mem_cons] at text
  obtain ⟨path, hash, status, extracted, id, item, fields, index, a, zero_, passed, x, y, j, _⟩ := text
  exact ⟨⟨path, a, hash, zero_, status, passed, extracted, ⟨path, x, trivial⟩, path, x, trivial⟩,
    ⟨id, j, item, ⟨index, ⟨_, _, rfl⟩, trivial⟩, fields, ⟨path, y, trivial⟩, trivial⟩⟩

theorem field_values : ∀ field ∈ fieldMembers, field.2 ≠ .str (utf8 "y") := by
  have value {text : Bytes} (inside : text ∈ [utf8 "/a", utf8 "0", utf8 "passed", utf8 "x"]) : Jval.str text ≠ .str (utf8 "y") :=
    fun same => field_facts.2.2.1 text inside (Jval.str.inj same)
  simp only [fieldMembers, List.forall_mem_cons]
  exact ⟨value (by simp), value (by simp), value (by simp), fun same => (by cases same), value (by simp), fun field none_ => (by cases none_)⟩

def fieldFiles (path : Bytes) : Option Bytes :=
  if path = fieldCorrection.path then some (terminated [written (record fieldMembers)]) else none

theorem field_asked : Asked (utf8 "/jobs") fieldFiles (written (record fieldRequest)) fieldCorrection
    (terminated [written (record fieldMembers)]) := by
  have read : parsed (written (record fieldRequest)) = some (record fieldRequest) := by
    rw [parsed, parse_text _ field_writable.2]
  have id : fieldRequest.lookup "job_id" = some (.str (utf8 "j")) := rfl
  have item : fieldRequest.lookup "item" = some fieldCorrection.wanted := rfl
  have fields : fieldRequest.lookup "fields" = fieldCorrection.fields := rfl
  refine ⟨record fieldRequest, read, ?_, ?_⟩
  · rw [correctionOf, get_record, get_record, get_record, id, item, fields]
    change (jobStatePath _ _ _).map _ = _
    rw [field_facts.2.2.2.1]
    rfl
  · rw [readFileLimit, fieldFiles, if_pos rfl]
    simpa using field_facts.2.2.2.2.1

-- The correction of the field replaces the path that the record was read from.
theorem input_path_replaced : definitionRecord [] fieldItem (some (utf8 "\x7b\"input_path\":\"x\"\x7d")) true none =
      some (written (record fieldMembers)) ∧
    Asked (utf8 "/jobs") fieldFiles (written (record fieldRequest)) fieldCorrection (terminated [written (record fieldMembers)]) ∧
    ∃ pending file, jobsReviewCorrect (fun _ => 0) (utf8 "/jobs") fieldFiles true (written (record fieldRequest)) =
        some (.corrected pending, Function.update fieldFiles fieldCorrection.path (some file)) ∧
      ¬Local (fun _ => 0) fieldCorrection (terminated [written (record fieldMembers)]) file := by
  obtain ⟨pass, run, found⟩ := Option.map_eq_some_iff.mp field_facts.2.2.2.2.2.1
  refine ⟨field_facts.1, field_asked, pass.pending, pass.output, ?_, fun local_ => ?_⟩
  · exact (accepted_iff field_asked (fun _ => 0) true _ _).mpr ⟨rfl, pass, run, found, rfl, rfl⟩
  · obtain ⟨before, line, after, at_⟩ := (correct_lines_iff (asked_cut field_asked)).mp ⟨pass, run, found, local_⟩
    obtain ⟨members, means, whole⟩ := at_.record
    have only : line = written (record fieldMembers) := by
      have raw := at_.raw
      rw [terminated_written fun text inside => ⟨_, List.mem_singleton.mp inside⟩] at raw
      have inside : line ∈ [written (record fieldMembers)] := raw ▸ List.mem_append_right _ List.mem_cons_self
      exact List.mem_singleton.mp inside
    have read : parsed line = some (record fieldMembers) := by rw [only, parsed, parse_text _ field_writable.1]
    have same : mappedFields cstr members = fieldMembers.map fun field => (utf8 field.1, field.2) :=
      Jval.obj.inj (Option.some.inj ((means_parsed means).symm.trans read))
    have path : reread (utf8 "input_path") = utf8 "input_path" := (reread_self _).mpr (field_text _ (by simp [fieldWords]))
    have text : StringText (utf8 "y") := field_text _ (by simp [fieldWords])
    have corrected : (utf8 "input_path", Jval.str (reread (utf8 "y"))) ∈ named (utf8 "input_path") members := by
      have field : fieldName (chosenOf fieldCorrection.fields members) (utf8 "input_path") = true :=
        field_facts.2.2.2.2.2.2
      rw [← whole.provenance _ List.mem_cons_self field]
      change _ ∈ named _ [(reread (utf8 "input_path"), Jval.str (reread (utf8 "y")))]
      rw [path, named, List.mem_filter]
      exact ⟨List.mem_singleton_self _, decide_eq_true rfl⟩
    have among : (cstr (utf8 "input_path"), Jval.str (cstr (reread (utf8 "y")))) ∈ mappedFields cstr members := by
      rw [mapped_fields_eq]
      exact List.mem_map_of_mem (List.mem_filter.mp corrected).1
    rw [same, (reread_self _).mpr text, cstr_self text.2] at among
    obtain ⟨field, inside, one⟩ := List.mem_map.mp among
    exact field_values field inside (Prod.mk.inj one).2

end Requests

end SamosaChat.Corrections
