import SamosaChat.Json.Compose
import SamosaChat.Lib.Find
import SamosaChat.Reader.Complete

set_option autoImplicit false

namespace SamosaChat.Verification

open Utf8 Binary64 Decimal JsonMeaning
open Reader (asStr asNum less of_ratio_natural)
open Text hiding find
open Json hiding Value Chars Kids Fields

abbrev Members := List (Bytes × Jval)

variable {P : Bytes → Prop} {Q : Jval → Prop}

section Modify

-- What is stored through the pointer that json_get gives.
def modify (key : Bytes) (change : Jval → Jval) : Members → Members
  | [] => []
  | (name, kid) :: fields => if name = key then (name, change kid) :: fields else (name, kid) :: modify key change fields

variable {key other : Bytes} {change change' : Jval → Jval} {fields : Members}

theorem modify_names : (modify key change fields).map Prod.fst = fields.map Prod.fst := by
  induction fields with
  | nil => rfl
  | cons field fields ih =>
    rw [modify]
    split
    · rfl
    · rw [List.map_cons, ih, List.map_cons]

theorem find_modify : find key (modify key change fields) = (find key fields).map change := by
  induction fields with
  | nil => rfl
  | cons field fields ih =>
    rw [modify, find]
    by_cases named : field.1 = key
    · rw [if_pos named, if_pos named, find, if_pos named]
      rfl
    · rw [if_neg named, if_neg named, find, if_neg named, ih]

theorem find_modify_other (different : other ≠ key) : find other (modify key change fields) = find other fields := by
  induction fields with
  | nil => rfl
  | cons field fields ih =>
    rw [modify, find]
    by_cases named : field.1 = key
    · have apart : field.1 ≠ other := fun same => different (same.symm.trans named)
      rw [if_pos named, find, if_neg apart, if_neg apart]
    · rw [if_neg named, find, ih]

theorem modify_again : modify key change (modify key change' fields) = modify key (change ∘ change') fields := by
  induction fields with
  | nil => rfl
  | cons field fields ih =>
    rw [modify, modify]
    by_cases named : field.1 = key
    · rw [if_pos named, if_pos named, modify, if_pos named]
      rfl
    · rw [if_neg named, if_neg named, modify, if_neg named, ih]

theorem modify_comm (different : other ≠ key) :
    modify other change (modify key change' fields) = modify key change' (modify other change fields) := by
  induction fields with
  | nil => rfl
  | cons field fields ih =>
    rw [modify, modify]
    by_cases named : field.1 = key
    · have apart : field.1 ≠ other := fun same => different (same.symm.trans named)
      rw [if_pos named, if_neg apart, modify, if_neg apart, modify, if_pos named]
    · by_cases named' : field.1 = other
      · rw [if_neg named, if_pos named', modify, if_pos named', modify, if_neg named]
      · rw [if_neg named, if_neg named', modify, if_neg named', modify, if_neg named, ih]

theorem find_mem {kid : Jval} (found : find key fields = some kid) : (key, kid) ∈ fields := by
  induction fields with
  | nil => cases found
  | cons first fields ih =>
    rw [find] at found
    by_cases named : first.1 = key
    · rw [if_pos named] at found
      cases found
      exact named ▸ List.mem_cons_self
    · rw [if_neg named] at found
      exact List.mem_cons_of_mem _ (ih found)

theorem modify_all (keeps : ∀ kid, Q kid → Q (change kid))
    (all : ∀ field ∈ fields, P field.1 ∧ Q field.2) : ∀ field ∈ modify key change fields, P field.1 ∧ Q field.2 := by
  induction fields with
  | nil => exact all
  | cons first fields ih =>
    obtain ⟨here, later⟩ := List.forall_mem_cons.mp all
    rw [modify]
    split
    · exact List.forall_mem_cons.mpr ⟨⟨here.1, keeps _ here.2⟩, later⟩
    · exact List.forall_mem_cons.mpr ⟨here, ih later⟩

theorem mem_kept {field : Bytes × Jval} (inside : field ∈ fields) :
    field ∈ modify key change fields ∨ field.1 = key ∧ find key fields = some field.2 := by
  induction fields with
  | nil => cases inside
  | cons first fields ih =>
    rw [modify, find]
    by_cases named : first.1 = key
    · rw [if_pos named, if_pos named]
      refine (List.mem_cons.mp inside).elim (fun same => .inr ⟨same ▸ named, ?_⟩) fun later => .inl (List.mem_cons_of_mem _ later)
      rw [same]
    · rw [if_neg named, if_neg named]
      refine (List.mem_cons.mp inside).elim (fun same => .inl (same ▸ List.mem_cons_self)) fun later => ?_
      exact (ih later).imp_left (List.mem_cons_of_mem _)

def withStr (text : Bytes) : Jval → Jval
  | .str _ => .str text
  | kid => kid

def withBool (boolean : Bool) : Jval → Jval
  | .bool _ => .bool boolean
  | kid => kid

def withNum (num : Double) : Jval → Jval
  | .num _ => .num num
  | kid => kid

theorem modify_unchanged (here : ∀ kid, find key fields = some kid → P key ∧ Q kid)
    (all : ∀ field ∈ modify key change fields, P field.1 ∧ Q field.2) : ∀ field ∈ fields, P field.1 ∧ Q field.2 := by
  intro field inside
  rcases mem_kept inside with kept | ⟨named, found⟩
  · exact all field kept
  · rw [named]
    exact here _ found

theorem with_str_all {text : Bytes} (holds : Q (.str text)) : ∀ kid, Q kid → Q (withStr text kid) := by
  intro kid old
  cases kid with
  | str str => exact holds
  | _ => exact old

theorem with_bool_all {boolean : Bool} (holds : Q (.bool boolean)) : ∀ kid, Q kid → Q (withBool boolean kid) := by
  intro kid old
  cases kid with
  | bool boolean => exact holds
  | _ => exact old

theorem with_num_all {num : Double} (holds : Q (.num num)) : ∀ kid, Q kid → Q (withNum num kid) := by
  intro kid old
  cases kid with
  | num num => exact holds
  | _ => exact old

end Modify

section Judgement

-- strncasecmp
def startsWith (word text : Bytes) : Bool :=
  (text.take word.length).map toLower == word.map toLower

-- strcasestr
def findFold (needle text : Bytes) : Option Nat :=
  Text.find (needle.map toLower) (text.map toLower)

def objectEnd : Nat → Bool → Bool → Bytes → Option Nat
  | _, _, _, [] => none
  | depth, true, true, _ :: rest => (objectEnd depth true false rest).map (· + 1)
  | depth, true, false, c :: rest => (objectEnd depth (c != 0x22) (c == 0x5c) rest).map (· + 1)
  | depth, false, _, c :: rest =>
    if c = 0x22 then (objectEnd depth true false rest).map (· + 1)
    else if c = 0x7b then (objectEnd (depth + 1) false false rest).map (· + 1)
    else if c = 0x7d ∧ depth = 1 then some 1
    else (objectEnd (if c = 0x7d then depth - 1 else depth) false false rest).map (· + 1)

def extractFrom : Nat → Bytes → Option Bytes
  | 0, _ => none
  | _ + 1, [] => none
  | fuel + 1, c :: rest =>
    if startsWith (utf8 "<think>") (c :: rest) then
      match findFold (utf8 "</think>") (c :: rest) with
      | none => none
      | some close => extractFrom fuel ((c :: rest).drop (close + 8))
    else if c ≠ 0x7b then extractFrom fuel rest
    else
      match objectEnd 0 false false (c :: rest) with
      | some len => some ((c :: rest).take len)
      | none => extractFrom fuel rest

def webExtractJsonObject (reply : Bytes) : Option Bytes :=
  extractFrom (reply.length + 1) reply

def firstChoice (answer : Option Bytes) : Option Jval :=
  (answer.bind parsed).bind fun root =>
    match jsonGet root (utf8 "choices") with
    | some (.arr (choice :: _)) => some choice
    | _ => none

def modelJsonJudgement (answer : Option Bytes) : Option Bytes :=
  (firstChoice answer).bind fun choice =>
    ((jsonGet choice (utf8 "message")).bind fun message => asStr (jsonGet message (utf8 "content"))).bind webExtractJsonObject

def truncated (answer : Option Bytes) : Bool :=
  (firstChoice answer).any fun choice => asStr (jsonGet choice (utf8 "finish_reason")) == some (utf8 "length")

end Judgement

section Candidates

def jobsSearchCandidateInScope (focus : Option Jval) (item : Jval) : Bool :=
  match jsonGet item (utf8 "condition_evidence") with
  | some (.arr (_ :: _)) => false
  | _ =>
    match focus with
    | some (.arr (kid :: kids)) =>
      (asStr (jsonGet item (utf8 "path"))).any fun path => (kid :: kids).any fun kid => asStr (some kid) == some path
    | _ => true

def jobsSearchItemIntentMatches (intent item : Jval) : Bool :=
  match jsonGet item (utf8 "search_intent") with
  | none => true
  | some saved =>
    match textJsonValue [] intent, textJsonValue [] saved with
    | some expected, some actual => expected == actual
    | _, _ => false

structure Wanted where
  intent : Jval
  target : Bytes
  choice : Bytes

def wanted (result : Jval) : Option Wanted :=
  (jsonGet result (utf8 "search_intent")).bind fun intent =>
    if asStr (jsonGet intent (utf8 "kind")) = some (utf8 "document_type") then
      match jsonGet intent (utf8 "constraints"), asStr (jsonGet intent (utf8 "target")),
        (jsonGet intent (utf8 "document_role")).bind fun role => asStr (jsonGet role (utf8 "choice")) with
      | some (.arr []), some target, some choice => some { intent, target, choice }
      | _, _, _ => none
    else none

def atLeast (least : Double) (num : Option Double) : Bool :=
  num.any fun num => !less num least

def excerpt (item : Jval) : Option Bytes :=
  asStr (jsonGet item (utf8 "excerpt"))

def marked (item : Jval) : Bool :=
  match jsonGet item (utf8 "needs_check") with
  | some (.bool boolean) => boolean
  | _ => false

def roleScore (item : Jval) : Option Double :=
  (jsonGet item (utf8 "document_role")).bind fun role =>
    (asStr (jsonGet role (utf8 "choice"))).bind fun choice =>
      (jsonGet role (utf8 "probabilities")).bind fun probabilities => asNum (jsonGet probabilities choice)

def isCandidate (focus : Option Jval) (wanted : Wanted) (item : Jval) : Bool :=
  jobsSearchCandidateInScope focus item && jobsSearchItemIntentMatches wanted.intent item && marked item &&
    atLeast (ofRatio false 1 2) (asNum (jsonGet item (utf8 "score"))) &&
    ((excerpt item).any fun preview => 24 ≤ preview.length && preview.length ≤ 1200) &&
    ((jsonGet item (utf8 "document_role")).bind fun role => asStr (jsonGet role (utf8 "choice"))) == some wanted.choice &&
    atLeast (ofRatio false 8 10) (roleScore item)

def itemsOf (result : Jval) : List Jval :=
  match jsonGet result (utf8 "items") with
  | some (.arr items) => items
  | _ => []

def candidatesOf (result : Jval) : List Nat :=
  match wanted result with
  | some wanted =>
    (((itemsOf result).zipIdx.filter fun pair => isCandidate (jsonGet result (utf8 "focus_paths")) wanted pair.1).map
      Prod.snd).take 8
  | none => []

def sourceText (items : List Jval) (number : Nat) : Bytes :=
  utf8 "\x7b\"number\":" ++ decimal number ++ utf8 ",\"text\":" ++
    quoted (((items[number]?).bind excerpt).getD []) ++ utf8 "\x7d"

def inputText (result : Jval) : Bytes :=
  utf8 "\x7b\"target\":" ++ quoted (((wanted result).map Wanted.target).getD []) ++ utf8 ",\"sources\":[" ++
    commas ((candidatesOf result).map (sourceText (itemsOf result))) ++ utf8 "]\x7d"

end Candidates

section Verdicts

def verdictSlot (len : Nat) (candidates : List Nat) (verdict : Jval) : Option (Nat × Nat) :=
  (asNum (jsonGet verdict (utf8 "number"))).bind fun number =>
    (candidates.zipIdx.filter fun pair => pair.1 < len && sameNumber number (ofRatio false pair.1 1)).getLast?

def supported (item : Option Jval) (quote : Bytes) : Bool :=
  (item.bind excerpt).any fun preview => 24 ≤ quote.length && quote.length ≤ 320 && (Text.find quote preview).isSome

def verdictsLoop (items : List Jval) (candidates : List Nat) : List Nat → List Jval → Bool
  | _, [] => true
  | seen, verdict :: verdicts =>
    match verdictSlot items.length candidates verdict, asStr (jsonGet verdict (utf8 "status")),
      asStr (jsonGet verdict (utf8 "quote")) with
    | some (number, slot), some status, some quote =>
      !(slot ∈ seen) && (if status = utf8 "match" then supported items[number]? quote else status == utf8 "uncertain") &&
        verdictsLoop items candidates (slot :: seen) verdicts
    | _, _, _ => false

def jobsSearchVerdictsValid (items : List Jval) (candidates : List Nat) (verdicts : Option Jval) : Bool :=
  match verdicts with
  | some (.arr verdicts) =>
    0 < candidates.length && candidates.length ≤ 8 && verdicts.length == candidates.length &&
      verdictsLoop items candidates [] verdicts
  | _ => false

def isMatch (verdict : Jval) : Bool :=
  asStr (jsonGet verdict (utf8 "status")) == some (utf8 "match")

def confirmedFields (fields : Members) : Members :=
  modify (utf8 "reason") (withStr (utf8 "literal_evidence_judgement"))
    (modify (utf8 "needs_check") (withBool false) (modify (utf8 "decision") (withStr (utf8 "match")) fields))

def confirmed : Jval → Jval
  | .obj fields => .obj (confirmedFields fields)
  | item => item

-- None where a member is not there, or the path is no string.
def confirm (item : Jval) : Option Jval :=
  if (jsonGet item (utf8 "decision")).isSome ∧ (jsonGet item (utf8 "needs_check")).isSome ∧ (jsonGet item (utf8 "reason")).isSome ∧
    (asStr (jsonGet item (utf8 "path"))).isSome then some (confirmed item) else none

def confirmVerdict (candidates : List Nat) (items : List Jval) (verdict : Jval) : Option (List Jval) :=
  if isMatch verdict then
    (verdictSlot items.length candidates verdict).bind fun (number, _) =>
      ((items[number]?).bind confirm).map fun item => items.set number item
  else some items

def storedTo (len : Nat) (candidates : List Nat) (verdicts : List Jval) : List Nat :=
  (verdicts.filter isMatch).filterMap fun verdict => (verdictSlot len candidates verdict).map Prod.fst

def matched (stored : Bool) (item : Jval) : Option Bool :=
  match jsonGet item (utf8 "decision") with
  | some (.str decision) => some (decision == utf8 "match")
  | some _ => if stored then some true else none
  | none => none

def totals (stored : List Nat) : Nat → List Jval → Option (Nat × Nat)
  | _, [] => some (0, 0)
  | i, item :: items =>
    (matched (i ∈ stored) item).bind fun here =>
      if (jsonGet item (utf8 "needs_check")).isSome then
        (totals stored (i + 1) items).map fun (found, reviews) =>
          (found + if here then 1 else 0, reviews + if marked item then 1 else 0)
      else none

def recounted (items : List Jval) (found reviews : Nat) (fields : Members) : Members :=
  modify (utf8 "needs_check_count") (withNum (ofRatio false reviews 1))
    (modify (utf8 "shortlist_count") (withNum (ofRatio false found 1)) (modify (utf8 "items") (fun _ => .arr items) fields))

def withEvidence (value reply : Jval) : Option Bytes :=
  (textJsonValue [] value).bind fun text =>
    if text.getLast? = some 0x7d then
      (textJsonValue (text.dropLast ++ utf8 ",\"evidence_verification\":") reply).map (· ++ [0x7d])
    else none

def rewritten (fields : Members) (items : List Jval) (candidates : List Nat) (verdicts : List Jval) (reply : Jval) (raw : Bytes) :
    Option Bytes :=
  (verdicts.foldlM (confirmVerdict candidates) items).bind fun items' =>
    (totals (storedTo items.length candidates verdicts) 0 items').bind fun (found, reviews) =>
      if (find (utf8 "shortlist_count") fields).isSome ∧ (find (utf8 "needs_check_count") fields).isSome then
        some ((withEvidence (.obj (recounted items' found reviews fields)) reply).getD raw)
      else none

def answerTo (backend : Bytes → Option Bytes) (result : Jval) : Option Bytes :=
  if candidatesOf result = [] then none else backend (inputText result)

def replyTo (backend : Bytes → Option Bytes) (result : Jval) : Option Jval :=
  (modelJsonJudgement (answerTo backend result)).bind parsed

def accepted (backend : Bytes → Option Bytes) (result : Jval) : Bool :=
  jobsSearchVerdictsValid (itemsOf result) (candidatesOf result)
    ((replyTo backend result).bind fun reply => jsonGet reply (utf8 "verdicts"))

-- None where a pointer that is NULL is read through.
def jobsSearchVerify (backend : Bytes → Option Bytes) (raw : Bytes) : Option Bytes :=
  match parsed raw with
  | some (.obj fields) =>
    if accepted backend (.obj fields) then
      match replyTo backend (.obj fields) with
      | some reply =>
        match jsonGet reply (utf8 "verdicts") with
        | some (.arr verdicts) =>
          rewritten fields (itemsOf (.obj fields)) (candidatesOf (.obj fields)) verdicts reply raw
        | _ => some raw
      | none => some raw
    else some raw
  | _ => some raw

end Verdicts

section Results

structure Reviewed (item : Jval) : Prop where
  object : ∃ fields, item = .obj fields ∧ ∀ field ∈ fields, StringText field.1
  path : ∃ path, jsonGet item (utf8 "path") = some (.str path)
  decision : ∃ decision, StringText decision ∧ jsonGet item (utf8 "decision") = some (.str decision)
  reason : ∃ reason, StringText reason ∧ jsonGet item (utf8 "reason") = some (.str reason)
  review : ∃ boolean, jsonGet item (utf8 "needs_check") = some (.bool boolean)

structure Shaped (fields : Members) (items : List Jval) : Prop where
  names : ∀ field ∈ fields, StringText field.1
  listed : find (utf8 "items") fields = some (.arr items)
  reviewed : ∀ item ∈ items, Reviewed item
  few : items.length < 2 ^ 31
  shortlist : ∃ num, Json.Finite num ∧ find (utf8 "shortlist_count") fields = some (.num num)
  reviews : ∃ num, Json.Finite num ∧ find (utf8 "needs_check_count") fields = some (.num num)

structure ResultSet where
  text : Bytes
  fields : Members
  items : List Jval
  document : Means text (.obj fields)
  shaped : Shaped fields items

def isFound (item : Jval) : Bool :=
  asStr (jsonGet item (utf8 "decision")) == some (utf8 "match")

def verdictsOf (reply : Option Jval) : List Jval :=
  match reply.bind fun reply => jsonGet reply (utf8 "verdicts") with
  | some (.arr verdicts) => verdicts
  | _ => []

structure Confirmed (focus : Option Jval) (verdicts : List Jval) (number : Nat) (item item' : Jval) : Prop where
  scope : jobsSearchCandidateInScope focus item = true
  asked : marked item = true
  quoted : ∃ verdict ∈ verdicts, ∃ num quote preview, asNum (jsonGet verdict (utf8 "number")) = some num ∧
    sameNumber num (ofRatio false number 1) = true ∧ isMatch verdict = true ∧
    asStr (jsonGet verdict (utf8 "quote")) = some quote ∧ excerpt item = some preview ∧ 24 ≤ quote.length ∧ quote.length ≤ 320 ∧
    quote <:+: preview
  changed : item' = confirmed item

def Rewritten (focus : Option Jval) (verdicts items items' : List Jval) : Prop :=
  items'.length = items.length ∧ ∀ i item item', items[i]? = some item → items'[i]? = some item' →
    item' = item ∨ Confirmed focus verdicts i item item'

def Verified (results : ResultSet) (verdicts : List Jval) (value : Jval) : Prop :=
  ∃ items' evidence, Rewritten (jsonGet (.obj results.fields) (utf8 "focus_paths")) verdicts results.items items' ∧
    value = .obj (recounted items' (items'.countP isFound) (items'.countP marked) results.fields ++
      [(utf8 "evidence_verification", evidence)])

def ResultSet.seen (results : ResultSet) : Jval :=
  mapped cstr (.obj results.fields)

def WellSent (answer : Option Bytes) : Prop :=
  (∃ raw value, answer = some raw ∧ Means raw value) ∧ truncated answer = false ∧
    ∃ object value, modelJsonJudgement answer = some object ∧ Means object value

structure Conservative (results : ResultSet) (backend : Bytes → Option Bytes) : Prop where
  kept : ¬(accepted backend results.seen = true ∧ WellSent (answerTo backend results.seen)) →
    jobsSearchVerify backend results.text = some results.text
  changes : jobsSearchVerify backend results.text = some results.text ∨ ∃ out value,
    jobsSearchVerify backend results.text = some out ∧ Means out value ∧
      Verified results (verdictsOf (replyTo backend results.seen)) value

def Admissible (results : ResultSet) (backend : Bytes → Option Bytes) : Prop :=
  accepted backend results.seen = true → WellSent (answerTo backend results.seen) ∧ Writable (.obj results.fields) ∧
    ∀ reply, replyTo backend results.seen = some reply → AllFinite reply

end Results

variable {item : Jval}

section Items

variable {fields : Members}

theorem find_seen (names : ∀ field ∈ fields, StringText field.1) (key : Bytes) :
    jsonGet (mapped cstr (.obj fields)) key = (find key fields).map (mapped cstr) :=
  find_mapped fun field inside => (names field inside).2

theorem names_cut (names : ∀ field ∈ fields, StringText field.1) : ∀ field ∈ mappedFields cstr fields, StringText field.1 := by
  intro field inside
  rw [mapped_fields_eq] at inside
  obtain ⟨old, inside', rfl⟩ := List.mem_map.mp inside
  have whole := names old inside'
  change StringText (cstr old.1)
  rwa [cstr_self whole.2]

theorem Reviewed.members (reviewed : Reviewed item) :
    ∃ fields path decision reason boolean, item = .obj fields ∧ (∀ field ∈ fields, StringText field.1) ∧
      find (utf8 "path") fields = some (.str path) ∧
      (StringText decision ∧ find (utf8 "decision") fields = some (.str decision)) ∧
      (StringText reason ∧ find (utf8 "reason") fields = some (.str reason)) ∧
      find (utf8 "needs_check") fields = some (.bool boolean) := by
  obtain ⟨fields, rfl, names⟩ := reviewed.object
  obtain ⟨path, isPath⟩ := reviewed.path
  obtain ⟨decision, isDecision⟩ := reviewed.decision
  obtain ⟨reason, isReason⟩ := reviewed.reason
  obtain ⟨boolean, isReview⟩ := reviewed.review
  exact ⟨fields, path, decision, reason, boolean, rfl, names, isPath, isDecision, isReason, isReview⟩

theorem reviewed_cut (reviewed : Reviewed item) : Reviewed (mapped cstr item) := by
  obtain ⟨fields, path, decision, reason, boolean, rfl, names, isPath, ⟨text, isDecision⟩, ⟨text', isReason⟩, isReview⟩ :=
    reviewed.members
  refine ⟨⟨_, rfl, names_cut names⟩, ⟨cstr path, ?_⟩, ⟨decision, text, ?_⟩, ⟨reason, text', ?_⟩, ⟨boolean, ?_⟩⟩
  · rw [find_seen names, isPath]
    rfl
  · rw [find_seen names, isDecision, Option.map_some, mapped, cstr_self text.2]
  · rw [find_seen names, isReason, Option.map_some, mapped, cstr_self text'.2]
  · rw [find_seen names, isReview]
    rfl

theorem reason_keys : utf8 "path" ≠ utf8 "reason" ∧ utf8 "decision" ≠ utf8 "reason" ∧ utf8 "needs_check" ≠ utf8 "reason" ∧
    utf8 "path" ≠ utf8 "needs_check" ∧ utf8 "decision" ≠ utf8 "needs_check" ∧ utf8 "reason" ≠ utf8 "needs_check" ∧
    utf8 "path" ≠ utf8 "decision" ∧ utf8 "reason" ≠ utf8 "decision" ∧ utf8 "needs_check" ≠ utf8 "decision" := by
  decide

theorem match_text : StringText (utf8 "match") :=
  literal_text (by decide)

theorem judgement_text : StringText (utf8 "literal_evidence_judgement") :=
  literal_text (by decide)

theorem reviewed_confirmed (reviewed : Reviewed item) : Reviewed (confirmed item) := by
  obtain ⟨fields, path, decision, reason, boolean, rfl, names, isPath, ⟨text, isDecision⟩, ⟨text', isReason⟩, isReview⟩ :=
    reviewed.members
  obtain ⟨a, b, c, d, e, f, g, h, i⟩ := reason_keys
  refine ⟨⟨_, rfl, ?_⟩, ⟨path, ?_⟩, ⟨utf8 "match", match_text, ?_⟩, ⟨_, judgement_text, ?_⟩, ⟨false, ?_⟩⟩
  · intro field inside
    have name := List.mem_map_of_mem (f := Prod.fst) inside
    rw [confirmedFields, modify_names, modify_names, modify_names] at name
    obtain ⟨old, inside', same⟩ := List.mem_map.mp name
    exact same ▸ names old inside'
  · change find _ (confirmedFields fields) = _
    rw [confirmedFields, find_modify_other a, find_modify_other d, find_modify_other g, isPath]
  · change find _ (confirmedFields fields) = _
    rw [confirmedFields, find_modify_other b, find_modify_other e, find_modify, isDecision]
    rfl
  · change find _ (confirmedFields fields) = _
    rw [confirmedFields, find_modify, find_modify_other f, find_modify_other h, isReason]
    rfl
  · change find _ (confirmedFields fields) = _
    rw [confirmedFields, find_modify_other c, find_modify, find_modify_other i, isReview]
    rfl

theorem with_str_again (text : Bytes) : withStr text ∘ withStr text = withStr text := by
  funext kid
  cases kid <;> rfl

theorem with_bool_again (boolean : Bool) : withBool boolean ∘ withBool boolean = withBool boolean := by
  funext kid
  cases kid <;> rfl

theorem confirmed_again (item : Jval) : confirmed (confirmed item) = confirmed item := by
  cases item with
  | obj fields =>
    obtain ⟨a, b, c, d, e, f, g, h, i⟩ := reason_keys
    refine congrArg Jval.obj ?_
    unfold confirmedFields
    rw [modify_comm b, modify_comm c, modify_again, with_str_again, modify_comm e, modify_again, with_bool_again, modify_again,
      with_str_again]
  | _ => rfl

theorem confirm_reviewed (reviewed : Reviewed item) : confirm item = some (confirmed item) := by
  obtain ⟨path, isPath⟩ := reviewed.path
  obtain ⟨decision, _, isDecision⟩ := reviewed.decision
  obtain ⟨reason, _, isReason⟩ := reviewed.reason
  obtain ⟨boolean, isReview⟩ := reviewed.review
  unfold confirm
  rw [isPath, isDecision, isReason, isReview, if_pos ⟨rfl, rfl, rfl, rfl⟩]

theorem confirmed_all (found : Q (.str (utf8 "match"))) (checked : Q (.bool false))
    (reason : Q (.str (utf8 "literal_evidence_judgement"))) (all : ∀ field ∈ fields, P field.1 ∧ Q field.2) :
    ∀ field ∈ confirmedFields fields, P field.1 ∧ Q field.2 :=
  modify_all (with_str_all reason) (modify_all (with_bool_all checked) (modify_all (with_str_all found) all))

theorem confirmed_writable (writable : Writable item) : Writable (confirmed item) := by
  cases item with
  | obj fields =>
    have all := (writable_fields_iff fields).mp writable
    exact (writable_fields_iff _).mpr (confirmed_all match_text trivial judgement_text all)
  | _ => exact writable

theorem writable_before (reviewed : Reviewed item) (writable : Writable (confirmed item)) : Writable item := by
  obtain ⟨fields, _, decision, reason, boolean, rfl, names, _, ⟨text, isDecision⟩, ⟨text', isReason⟩, isReview⟩ :=
    reviewed.members
  obtain ⟨a, b, c, d, e, f, g, h, i⟩ := reason_keys
  have after := (writable_fields_iff (confirmedFields fields)).mp writable
  refine (writable_fields_iff fields).mpr (modify_unchanged ?_ (modify_unchanged ?_ (modify_unchanged ?_ after)))
  · intro kid found
    cases isDecision.symm.trans found
    exact ⟨literal_text (by decide), text⟩
  · intro kid found
    rw [find_modify_other i] at found
    cases isReview.symm.trans found
    exact ⟨literal_text (by decide), trivial⟩
  · intro kid found
    rw [find_modify_other f, find_modify_other h] at found
    cases isReason.symm.trans found
    exact ⟨literal_text (by decide), text'⟩

end Items

section Runs

variable {candidates : List Nat} {verdicts items : List Jval}

theorem evidence_name : StringText (utf8 "evidence_verification") :=
  literal_text (by decide)

theorem matched_reviewed (stored : Bool) (reviewed : Reviewed item) : matched stored item = some (isFound item) := by
  obtain ⟨decision, _, isDecision⟩ := reviewed.decision
  unfold matched isFound
  rw [isDecision]
  rfl

theorem totals_reviewed {stored : List Nat} {i : Nat} (reviewed : ∀ item ∈ items, Reviewed item) :
    totals stored i items = some (items.countP isFound, items.countP marked) := by
  induction items generalizing i with
  | nil => rfl
  | cons item items ih =>
    obtain ⟨here, later⟩ := List.forall_mem_cons.mp reviewed
    obtain ⟨boolean, isReview⟩ := here.review
    rw [totals, matched_reviewed _ here, ih later, isReview, List.countP_cons, List.countP_cons]
    rfl

theorem slot_candidate {len number slot : Nat} {verdict : Jval} (named : verdictSlot len candidates verdict = some (number, slot)) :
    number ∈ candidates ∧ number < len ∧ ∃ num, asNum (jsonGet verdict (utf8 "number")) = some num ∧
      sameNumber num (ofRatio false number 1) = true := by
  obtain ⟨num, isNumber, last⟩ := Option.bind_eq_some_iff.mp named
  have inside := List.mem_of_getLast? last
  rw [List.mem_filter, Bool.and_eq_true, decide_eq_true_eq] at inside
  obtain ⟨among, less, same⟩ := inside
  exact ⟨List.fst_mem_of_mem_zipIdx among, less, num, isNumber, same⟩

theorem supported_quote {item : Option Jval} {quote : Bytes} (holds : supported item quote = true) :
    ∃ item' preview, item = some item' ∧ excerpt item' = some preview ∧ 24 ≤ quote.length ∧ quote.length ≤ 320 ∧ quote <:+: preview := by
  unfold supported at holds
  cases found : item.bind excerpt with
  | none =>
    rw [found] at holds
    cases holds
  | some preview =>
  rw [found] at holds
  obtain ⟨item', rfl, isPreview⟩ := Option.bind_eq_some_iff.mp found
  simp only [Option.any_some, Bool.and_eq_true, decide_eq_true_eq] at holds
  obtain ⟨⟨long, short⟩, inside⟩ := holds
  obtain ⟨k, at_⟩ := Option.isSome_iff_exists.mp inside
  obtain ⟨front, _, _⟩ := find_some at_
  exact ⟨item', preview, rfl, isPreview, long, short, front.isInfix.trans (List.drop_suffix k preview).isInfix⟩

def Backed (items : List Jval) (candidates : List Nat) (verdict : Jval) : Prop :=
  ∃ number slot quote, verdictSlot items.length candidates verdict = some (number, slot) ∧
    asStr (jsonGet verdict (utf8 "quote")) = some quote ∧ supported items[number]? quote = true

theorem loop_backed {seen : List Nat} (valid : verdictsLoop items candidates seen verdicts = true) :
    ∀ verdict ∈ verdicts, isMatch verdict = true → Backed items candidates verdict := by
  induction verdicts generalizing seen with
  | nil => exact fun verdict inside => (List.not_mem_nil inside).elim
  | cons verdict verdicts ih =>
    unfold verdictsLoop at valid
    split at valid
    · next number slot status quote named isStatus isQuote =>
        rw [Bool.and_eq_true, Bool.and_eq_true] at valid
        obtain ⟨⟨_, holds⟩, later⟩ := valid
        refine List.forall_mem_cons.mpr ⟨fun isMatch_ => ?_, ih later⟩
        have same : status = utf8 "match" := by
          unfold isMatch at isMatch_
          rw [isStatus] at isMatch_
          exact Option.some.inj (eq_of_beq isMatch_)
        rw [if_pos same] at holds
        exact ⟨number, slot, quote, named, isQuote, holds⟩
    · cases valid

variable {fields : Members} {result : Jval}

theorem candidate_item {number : Nat} (inside : number ∈ candidatesOf result) :
    ∃ item, (itemsOf result)[number]? = some item ∧ jobsSearchCandidateInScope (jsonGet result (utf8 "focus_paths")) item = true ∧
      marked item = true := by
  unfold candidatesOf at inside
  split at inside
  · next wanted _ =>
      obtain ⟨⟨item, i⟩, among, rfl⟩ := List.mem_map.mp (List.mem_of_mem_take inside)
      obtain ⟨listed, holds⟩ := List.mem_filter.mp among
      unfold isCandidate at holds
      simp only [Bool.and_eq_true] at holds
      exact ⟨item, List.mem_zipIdx_iff_getElem?.mp listed, holds.1.1.1.1.1.1, holds.1.1.1.1.2⟩
  · cases inside

theorem confirm_step {all now : List Jval} {verdict : Jval} (reviewed : ∀ item ∈ itemsOf result, Reviewed item)
    (among : verdict ∈ all) (backed : isMatch verdict = true → Backed (itemsOf result) (candidatesOf result) verdict)
    (before : Rewritten (jsonGet result (utf8 "focus_paths")) all (itemsOf result) now) :
    ∃ next, confirmVerdict (candidatesOf result) now verdict = some next ∧
      Rewritten (jsonGet result (utf8 "focus_paths")) all (itemsOf result) next := by
  obtain ⟨length, items⟩ := before
  unfold confirmVerdict
  by_cases says_ : isMatch verdict = true
  · obtain ⟨number, slot, quote, named, isQuote, holds⟩ := backed says_
    obtain ⟨inside, less, num, isNumber, same⟩ := slot_candidate named
    obtain ⟨item, here, scope, asked⟩ := candidate_item inside
    obtain ⟨item', preview, here', isPreview, long, short, quoted⟩ := supported_quote holds
    cases here.symm.trans here'
    have still : now[number]? = some now[number] := List.getElem?_eq_getElem (length ▸ less)
    have again : Reviewed now[number] ∧ confirmed now[number] = confirmed item := by
      have old := reviewed item (List.mem_of_getElem? here)
      rcases items number item _ here still with kept | changed
      · rw [kept]
        exact ⟨old, rfl⟩
      · rw [changed.changed]
        exact ⟨reviewed_confirmed old, confirmed_again item⟩
    rw [if_pos says_, length, named, Option.bind_some]
    dsimp only
    rw [still, Option.bind_some, confirm_reviewed again.1, again.2]
    refine ⟨_, rfl, by rw [List.length_set, length], fun i old new there there' => ?_⟩
    by_cases same' : number = i
    · subst same'
      rw [List.getElem?_set_self (length ▸ less)] at there'
      cases there'
      cases here.symm.trans there
      exact .inr ⟨scope, asked, ⟨verdict, among, num, quote, preview, isNumber, same, says_, isQuote, isPreview, long, short, quoted⟩, rfl⟩
    · rw [List.getElem?_set_ne same'] at there'
      exact items i old new there there'
  · rw [if_neg says_]
    exact ⟨now, rfl, length, items⟩

theorem confirm_run {all verdicts : List Jval} (reviewed : ∀ item ∈ itemsOf result, Reviewed item)
    (among : ∀ verdict ∈ verdicts, verdict ∈ all)
    (backed : ∀ verdict ∈ verdicts, isMatch verdict = true → Backed (itemsOf result) (candidatesOf result) verdict)
    {now : List Jval} (before : Rewritten (jsonGet result (utf8 "focus_paths")) all (itemsOf result) now) :
    ∃ next, verdicts.foldlM (confirmVerdict (candidatesOf result)) now = some next ∧
      Rewritten (jsonGet result (utf8 "focus_paths")) all (itemsOf result) next := by
  induction verdicts generalizing now with
  | nil => exact ⟨now, rfl, before⟩
  | cons verdict verdicts ih =>
    obtain ⟨first, rest⟩ := List.forall_mem_cons.mp among
    obtain ⟨backed', later⟩ := List.forall_mem_cons.mp backed
    obtain ⟨middle, one, between⟩ := confirm_step reviewed first backed' before
    obtain ⟨next, more, after⟩ := ih rest later between
    exact ⟨next, by rw [List.foldlM_cons, one, Option.bind_eq_bind, Option.bind_some, more], after⟩

theorem rewritten_all {focus : Option Jval} {items' : List Jval}
    (rewrites : Rewritten focus verdicts items items') (confirms : ∀ item, Q item → Q (confirmed item)) (all : ∀ item ∈ items, Q item) :
    ∀ item ∈ items', Q item := by
  intro item' inside
  obtain ⟨i, there⟩ := List.mem_iff_getElem?.mp inside
  have less : i < items.length := rewrites.1 ▸ (List.getElem?_eq_some_iff.mp there).1
  have old := all items[i] (List.getElem_mem less)
  rcases rewrites.2 i _ item' (List.getElem?_eq_getElem less) there with kept | changed
  · rw [kept]
    exact old
  · rw [changed.changed]
    exact confirms _ old

theorem with_evidence (some_ : fields ≠ []) (reply : Jval) : withEvidence (.obj fields) reply =
    some (written (.obj (fields ++ [(utf8 "evidence_verification", reply)]))) := by
  have name : 0x2c :: 0x22 :: escaped (utf8 "evidence_verification") ++ [0x22, 0x3a] = utf8 ",\"evidence_verification\":" := by decide
  have front : fields.isEmpty = false := by simpa using some_
  have shape : written (.obj fields) = 0x7b :: writtenFields true fields ++ [0x7d] := by simp [written]
  unfold withEvidence
  rw [text_json_value_eq, List.nil_append, Option.bind_some, shape, List.getLast?_concat, if_pos rfl, List.dropLast_concat,
    text_json_value_eq, ← name]
  change _ = some (0x7b :: writtenFields true (fields ++ [(utf8 "evidence_verification", reply)]) ++ [0x7d])
  rw [written_fields_append, front, writtenFields, writtenFields]
  simp

theorem recounted_some {found reviews : Nat} (some_ : fields ≠ []) : recounted items found reviews fields ≠ [] := by
  intro none_
  have names := congrArg (List.map Prod.fst) none_
  unfold recounted at names
  rw [modify_names, modify_names, modify_names, List.map_nil, List.map_eq_nil_iff] at names
  exact some_ names

theorem verify_accepted {backend : Bytes → Option Bytes} {raw : Bytes} (read : parsed raw = some (.obj fields))
    (shaped : Shaped fields items) (accepts : accepted backend (.obj fields) = true) : ∃ reply items',
      replyTo backend (.obj fields) = some reply ∧
      Rewritten (jsonGet (.obj fields) (utf8 "focus_paths")) (verdictsOf (replyTo backend (.obj fields))) items items' ∧
      jobsSearchVerify backend raw = some (written (.obj (recounted items' (items'.countP isFound) (items'.countP marked) fields ++
        [(utf8 "evidence_verification", reply)]))) := by
  have listed : itemsOf (.obj fields) = items := by
    unfold itemsOf
    change (match find (utf8 "items") fields with | some (.arr items) => items | _ => []) = _
    rw [shaped.listed]
  obtain ⟨num, _, shortlist⟩ := shaped.shortlist
  obtain ⟨num', _, reviews⟩ := shaped.reviews
  have some_ : fields ≠ [] := fun none_ => List.not_mem_nil (none_ ▸ find_mem shaped.listed)
  have valid := accepts
  unfold accepted jobsSearchVerdictsValid at valid
  split at valid
  · next verdicts said =>
      obtain ⟨reply, replied, isArray⟩ := Option.bind_eq_some_iff.mp said
      rw [Bool.and_eq_true] at valid
      have reviewed : ∀ item ∈ itemsOf (.obj fields), Reviewed item := listed ▸ shaped.reviewed
      have same : verdictsOf (replyTo backend (.obj fields)) = verdicts := by
        unfold verdictsOf
        rw [said]
      obtain ⟨items', folded, rewrites⟩ := confirm_run reviewed (fun verdict inside => inside) (loop_backed valid.2)
        ⟨rfl, fun i item item' here there => .inl (Option.some.inj (there.symm.trans here))⟩
      rw [listed] at rewrites
      refine ⟨reply, items', replied, same ▸ rewrites, ?_⟩
      unfold jobsSearchVerify
      rw [read]
      dsimp only
      rw [if_pos accepts, replied]
      dsimp only
      rw [isArray]
      dsimp only
      unfold rewritten
      rw [folded, Option.bind_some, totals_reviewed (rewritten_all rewrites (fun _ => reviewed_confirmed) shaped.reviewed), Option.bind_some]
      dsimp only
      rw [shortlist, reviews, if_pos ⟨rfl, rfl⟩, with_evidence (recounted_some some_), Option.getD_some]
  · cases valid

theorem verify_refused {backend : Bytes → Option Bytes} {raw : Bytes} (read : parsed raw = some (.obj fields))
    (refuses : ¬accepted backend (.obj fields) = true) : jobsSearchVerify backend raw = some raw := by
  unfold jobsSearchVerify
  rw [read]
  dsimp only
  rw [if_neg refuses]

end Runs

section Shapes

variable {fields : Members} {items : List Jval} {found reviews : Nat}

theorem mapped_kids_eq (f : Bytes → Bytes) (kids : List Jval) : mappedKids f kids = kids.map (mapped f) := by
  induction kids with
  | nil => rfl
  | cons kid kids ih => rw [mappedKids, ih, List.map_cons]

theorem kids_writable_iff (kids : List Jval) : WritableKids kids ↔ ∀ kid ∈ kids, Writable kid := by
  induction kids with
  | nil => exact iff_of_true trivial fun kid inside => (List.not_mem_nil inside).elim
  | cons kid kids ih => rw [WritableKids, ih, List.forall_mem_cons]

def Cut (value : Jval) : Prop :=
  mapped cstr value = value

theorem kids_cut_iff (kids : List Jval) : mappedKids cstr kids = kids ↔ ∀ kid ∈ kids, Cut kid := by
  induction kids with
  | nil => exact iff_of_true rfl fun kid inside => (List.not_mem_nil inside).elim
  | cons kid kids ih =>
    rw [mappedKids, List.cons.injEq, ih, List.forall_mem_cons]
    rfl

theorem fields_cut_iff (fields : Members) : Cut (.obj fields) ↔ ∀ field ∈ fields, cstr field.1 = field.1 ∧ Cut field.2 := by
  rw [Cut, mapped, Jval.obj.injEq]
  induction fields with
  | nil => exact iff_of_true rfl fun field inside => (List.not_mem_nil inside).elim
  | cons field fields ih =>
    obtain ⟨key, kid⟩ := field
    rw [mappedFields, List.cons.injEq, Prod.mk.injEq, ih, List.forall_mem_cons]
    rfl

theorem shaped_cut (shaped : Shaped fields items) : Shaped (mappedFields cstr fields) (mappedKids cstr items) := by
  obtain ⟨num, finite, shortlist⟩ := shaped.shortlist
  obtain ⟨num', finite', reviews⟩ := shaped.reviews
  have seen (key : Bytes) : find key (mappedFields cstr fields) = (find key fields).map (mapped cstr) := find_seen shaped.names key
  refine ⟨names_cut shaped.names, ?_, ?_, ?_, ⟨num, finite, ?_⟩, ⟨num', finite', ?_⟩⟩
  · rw [seen, shaped.listed]
    rfl
  · intro item inside
    rw [mapped_kids_eq] at inside
    obtain ⟨old, inside', rfl⟩ := List.mem_map.mp inside
    exact reviewed_cut (shaped.reviewed old inside')
  · rw [mapped_kids_eq, List.length_map]
    exact shaped.few
  · rw [seen, shortlist]
    rfl
  · rw [seen, reviews]
    rfl

theorem count_finite {n : Nat} (few : n < 2 ^ 31) : Json.Finite (ofRatio false n 1) :=
  ⟨_, _, of_ratio_natural (Nat.le_trans (Nat.le_of_lt few) (by decide))⟩

theorem total_keys : utf8 "items" ≠ utf8 "shortlist_count" ∧ utf8 "items" ≠ utf8 "needs_check_count" ∧
    utf8 "shortlist_count" ≠ utf8 "needs_check_count" ∧ utf8 "shortlist_count" ≠ utf8 "items" ∧
    utf8 "needs_check_count" ≠ utf8 "shortlist_count" ∧ utf8 "needs_check_count" ≠ utf8 "items" := by
  decide

theorem recounted_all (listed : Q (.arr items)) (counted : Q (.num (ofRatio false found 1)))
    (counted' : Q (.num (ofRatio false reviews 1))) (all : ∀ field ∈ fields, P field.1 ∧ Q field.2) :
    ∀ field ∈ recounted items found reviews fields, P field.1 ∧ Q field.2 :=
  modify_all (with_num_all counted') (modify_all (with_num_all counted) (modify_all (fun _ _ => listed) all))

theorem recounted_items {old : Jval} (listed : find (utf8 "items") fields = some old) :
    (utf8 "items", .arr items) ∈ recounted items found reviews fields := by
  obtain ⟨a, b, _⟩ := total_keys
  apply find_mem
  rw [recounted, find_modify_other b, find_modify_other a, find_modify, listed]
  rfl

theorem recounted_length : (recounted items found reviews fields).length = fields.length := by
  have names : (recounted items found reviews fields).map Prod.fst = fields.map Prod.fst := by
    rw [recounted, modify_names, modify_names, modify_names]
  simpa using congrArg List.length names

theorem recounted_before {old : List Jval} (shaped : Shaped fields old) (listed : Writable (.arr old))
    (after : ∀ field ∈ recounted items found reviews fields, StringText field.1 ∧ Writable field.2) : Writable (.obj fields) := by
  obtain ⟨num, finite, shortlist⟩ := shaped.shortlist
  obtain ⟨num', finite', reviews⟩ := shaped.reviews
  obtain ⟨a, b, c, d, e, f⟩ := total_keys
  refine (writable_fields_iff fields).mpr (modify_unchanged ?_ (modify_unchanged ?_ (modify_unchanged ?_ after)))
  · intro kid here
    cases shaped.listed.symm.trans here
    exact ⟨literal_text (by decide), listed⟩
  · intro kid here
    rw [find_modify_other d] at here
    cases shortlist.symm.trans here
    exact ⟨literal_text (by decide), finite⟩
  · intro kid here
    rw [find_modify_other e, find_modify_other f] at here
    cases reviews.symm.trans here
    exact ⟨literal_text (by decide), finite'⟩

theorem writable_cut {value : Jval} (writable : Writable value) : mapped cstr value = value := by
  have whole : cstr ∘ reread = reread := funext fun str => cstr_self (reread_text str).2
  rw [← ((writable_iff value).mp writable).2, mapped_mapped, whole]

theorem writable_lossy {value : Jval} (writable : Writable value) : mapped lossy value = value :=
  ((means_written value value).mp (means_self writable)).2.symm

theorem rewritten_before {focus : Option Jval} {verdicts items' : List Jval} (rewrites : Rewritten focus verdicts items items')
    (reviewed : ∀ item ∈ items, Reviewed item) (all : ∀ item ∈ items', Writable item) : ∀ item ∈ items, Writable item := by
  intro item inside
  obtain ⟨i, here⟩ := List.mem_iff_getElem?.mp inside
  have less : i < items'.length := rewrites.1 ▸ (List.getElem?_eq_some_iff.mp here).1
  have new := all items'[i] (List.getElem_mem less)
  rcases rewrites.2 i item _ here (List.getElem?_eq_getElem less) with kept | changed
  · exact kept ▸ new
  · rw [changed.changed] at new
    exact writable_before (reviewed item inside) new

theorem confirmed_cut (cut : Cut item) : Cut (confirmed item) := by
  cases item with
  | obj fields =>
    refine (fields_cut_iff _).mpr (confirmed_all (P := fun key => cstr key = key) (Q := Cut) ?_ rfl ?_ ((fields_cut_iff fields).mp cut))
    · exact congrArg Jval.str (cstr_self match_text.2)
    · exact congrArg Jval.str (cstr_self judgement_text.2)
  | _ => exact cut

end Shapes

section Verification

variable {results : ResultSet} {backend : Bytes → Option Bytes}

theorem results_read (results : ResultSet) : parsed results.text = some (.obj (mappedFields cstr results.fields)) :=
  means_parsed results.document

theorem means_cut {value w : Jval} (cut : Cut value) : Means (written value) w ↔ AllFinite value ∧ w = mapped reread value := by
  have same := means_reread value w
  rwa [cut] at same

theorem conservative_admissible (conservative : Conservative results backend) : Admissible results backend := by
  intro accepts
  have shaped := shaped_cut results.shaped
  obtain ⟨reply, items', replied, rewrites, verified⟩ := verify_accepted (results_read results) shaped accepts
  obtain ⟨value, isValue⟩ : ∃ value, value = recounted items' (items'.countP isFound) (items'.countP marked)
      (mappedFields cstr results.fields) ++ [(utf8 "evidence_verification", reply)] := ⟨_, rfl⟩
  rw [← isValue] at verified
  have longer : value.length = results.fields.length + 1 := by
    rw [isValue, List.length_append, recounted_length, mapped_fields_eq, List.length_map]
    rfl
  have other : jobsSearchVerify backend results.text ≠ some results.text := by
    intro still
    have same := Option.some.inj (verified.symm.trans still)
    have again := results.document
    rw [← same] at again
    have fields := Jval.obj.inj ((means_written _ _).mp again).2
    have length := congrArg List.length fields
    rw [mapped_fields_eq, List.length_map, longer] at length
    omega
  have sent : WellSent (answerTo backend results.seen) := by
    by_contra ill
    exact other (conservative.kept fun both => ill both.2)
  rcases conservative.changes with still | ⟨out, w, verified', means, items'', evidence, rewrites', same⟩
  · exact absurd still other
  cases verified.symm.trans verified'
  -- Everything in the value has come from the parser, or from a literal.
  have cut : Cut (.obj value) := by
    have front : Cut (.obj (mappedFields cstr results.fields)) := parsed_cut (results_read results)
    have listed : Cut (.arr (mappedKids cstr results.items)) := get_cut front shaped.listed
    have items_ := rewritten_all (Q := Cut) rewrites (fun _ => confirmed_cut) ((kids_cut_iff _).mp (Jval.arr.inj listed))
    have put : Cut (.arr items') := congrArg Jval.arr ((kids_cut_iff _).mpr items_)
    obtain ⟨object, _, read⟩ := Option.bind_eq_some_iff.mp replied
    refine (fields_cut_iff _).mpr ?_
    rw [isValue]
    refine List.forall_mem_append.mpr ⟨recounted_all (P := fun key => cstr key = key) (Q := Cut) put rfl rfl ((fields_cut_iff _).mp front), ?_⟩
    exact List.forall_mem_singleton.mpr ⟨cstr_self evidence_name.2, parsed_cut read⟩
  obtain ⟨finite, isReread⟩ := (means_cut cut).mp means
  have whole : Writable w := isReread ▸ (writable_reread _).mpr finite
  rw [same] at whole
  have after := (List.forall_mem_append.mp ((writable_fields_iff _).mp whole)).1
  have listed : Writable (.arr items'') := (after _ (recounted_items results.shaped.listed)).2
  have before := rewritten_before rewrites' results.shaped.reviewed ((kids_writable_iff _).mp listed)
  refine ⟨sent, recounted_before results.shaped ((kids_writable_iff _).mpr before) after, fun reply' replied' => ?_⟩
  cases replied.symm.trans replied'
  exact (all_finite_fields_iff _).mp finite (utf8 "evidence_verification", reply) (isValue ▸ List.mem_concat_self)

theorem admissible_conservative (admissible : Admissible results backend) : Conservative results backend := by
  by_cases accepts : accepted backend results.seen = true
  · obtain ⟨sent, writable, finite⟩ := admissible accepts
    have seen : results.seen = .obj results.fields := writable_cut writable
    have read := results_read results
    change parsed results.text = some results.seen at read
    rw [seen] at read accepts finite
    obtain ⟨reply, items', replied, rewrites, verified⟩ := verify_accepted read results.shaped accepts
    refine ⟨fun ill => absurd ⟨seen ▸ accepts, sent⟩ ill, .inr ⟨_, .obj (recounted items' (items'.countP isFound) (items'.countP marked)
      results.fields ++ [(utf8 "evidence_verification", mapped lossy reply)]), verified, ?_, items', _, seen ▸ rewrites, rfl⟩⟩
    have fields := (writable_fields_iff _).mp writable
    have old : Writable (.arr results.items) := (fields _ (find_mem results.shaped.listed)).2
    have items_ : Writable (.arr items') :=
      (kids_writable_iff _).mpr (rewritten_all rewrites (fun _ => confirmed_writable) ((kids_writable_iff _).mp old))
    have few (p : Jval → Bool) : Json.Finite (ofRatio false (items'.countP p) 1) :=
      count_finite (Nat.lt_of_le_of_lt List.countP_le_length (rewrites.1 ▸ results.shaped.few))
    have whole : Writable (.obj (recounted items' (items'.countP isFound) (items'.countP marked) results.fields)) :=
      (writable_fields_iff _).mpr (recounted_all items_ (few isFound) (few marked) fields)
    refine (means_written _ _).mpr ⟨(all_finite_fields_iff _).mpr (List.forall_mem_append.mpr ⟨?_, ?_⟩), ?_⟩
    · exact (all_finite_fields_iff _).mp ((writable_iff _).mp whole).1
    · exact List.forall_mem_singleton.mpr (finite reply replied)
    · have same := Jval.obj.inj (writable_lossy whole)
      have name : lossy (utf8 "evidence_verification") = utf8 "evidence_verification" := lossy_valid evidence_name.1
      refine congrArg Jval.obj ?_
      rw [mapped_fields_eq] at same ⊢
      rw [List.map_append, same, List.map_cons, List.map_nil, name]
  · have still := verify_refused (results_read results) accepts
    exact ⟨fun _ => still, .inl still⟩

def roleItems : List Item :=
  [("choice", quoted (utf8 "form"), .str (utf8 "form")),
    ("probabilities", object [member "form" (decimal 1)], .obj [(utf8 "form", .num (ofScaled false 10 1 0))])]

def valueOf (items : List Item) : Jval :=
  .obj (items.map fun item => (utf8 item.1, item.2.2))

def textOf (items : List Item) : Bytes :=
  object (items.map fun item => member item.1 item.2.1)

def formItems : List Item :=
  [("path", quoted (utf8 "form.pdf"), .str (utf8 "form.pdf")),
    ("excerpt", quoted (utf8 "Application for a library card"), .str (utf8 "Application for a library card")),
    ("document_role", textOf roleItems, valueOf roleItems), ("score", decimal 1, .num (ofScaled false 10 1 0)),
    ("decision", quoted (utf8 "needs_check"), .str (utf8 "needs_check")), ("needs_check", utf8 "true", .bool true),
    ("reason", quoted (utf8 "ambiguous_preview"), .str (utf8 "ambiguous_preview"))]

def nulText : Bytes :=
  utf8 "\"\\u0000\""

def pageItems : List Item :=
  [("path", quoted (utf8 "page.pdf"), .str (utf8 "page.pdf")), ("excerpt", nulText, .str [0]),
    ("decision", quoted (utf8 "rejected"), .str (utf8 "rejected")), ("needs_check", utf8 "false", .bool false),
    ("reason", quoted (utf8 "model_choice"), .str (utf8 "model_choice"))]

def expectedItems : List Item :=
  [("choice", quoted (utf8 "form"), .str (utf8 "form"))]

def intentItems : List Item :=
  [("kind", quoted (utf8 "document_type"), .str (utf8 "document_type")), ("target", quoted (utf8 "card"), .str (utf8 "card")),
    ("constraints", array [], .arr []), ("document_role", textOf expectedItems, valueOf expectedItems)]

def pageResult : List Item :=
  [("search_intent", textOf intentItems, valueOf intentItems),
    ("items", array [textOf formItems, textOf pageItems], .arr [valueOf formItems, valueOf pageItems]),
    ("shortlist_count", decimal 0, .num (ofScaled false 10 0 0)), ("needs_check_count", decimal 1, .num (ofScaled false 10 1 0))]

theorem nul_means : Means nulText (.str [0]) := by
  have shape : nulText = 0x22 :: [0x5c, 0x75, 0x30, 0x30, 0x30, 0x30, 0x22] := by decide
  have chars : JsonGrammar.Chars [0x5c, 0x75, 0x30, 0x30, 0x30, 0x30, 0x22] [.code 0] [] := .code (by decide) (.close _)
  rw [shape]
  exact ⟨.str [0], ⟨_, [], ws_none _, .str chars, ws_none _⟩, rfl⟩

theorem named_means {name : String} (clean : (0 : UInt8) ∉ utf8 name) : Means (quoted (utf8 name)) (.str (utf8 name)) :=
  means_quoted (literal_text clean)

theorem no_item : ∀ item ∈ ([] : List Item), Means item.2.1 item.2.2 :=
  fun _ is => (List.not_mem_nil is).elim

theorem role_means : Means (textOf roleItems) (valueOf roleItems) := by
  have score : Means (object [member "form" (decimal 1)]) (.obj [(utf8 "form", .num (ofScaled false 10 1 0))]) :=
    means_members [("form", decimal 1, .num (ofScaled false 10 1 0))] (by decide) (List.forall_mem_cons.mpr ⟨means_decimal 1, no_item⟩)
  refine means_members roleItems (by decide) ?_
  simp only [roleItems, List.forall_mem_cons]
  exact ⟨named_means (by decide), score, no_item⟩

theorem form_means : Means (textOf formItems) (valueOf formItems) := by
  refine means_members formItems (by decide) ?_
  simp only [formItems, List.forall_mem_cons]
  exact ⟨named_means (by decide), named_means (by decide), role_means, means_decimal 1, named_means (by decide), means_bool true,
    named_means (by decide), no_item⟩

theorem page_means : Means (textOf pageItems) (valueOf pageItems) := by
  refine means_members pageItems (by decide) ?_
  simp only [pageItems, List.forall_mem_cons]
  exact ⟨named_means (by decide), nul_means, named_means (by decide), means_bool false, named_means (by decide), no_item⟩

theorem intent_means : Means (textOf intentItems) (valueOf intentItems) := by
  have expected : Means (textOf expectedItems) (valueOf expectedItems) :=
    means_members expectedItems (by decide) (List.forall_mem_cons.mpr ⟨@named_means "form" (by decide), no_item⟩)
  refine means_members intentItems (by decide) ?_
  simp only [intentItems, List.forall_mem_cons]
  exact ⟨named_means (by decide), named_means (by decide), @means_array Bytes id (fun _ => .null) [] (by simp), expected, no_item⟩

theorem result_means : Means (textOf pageResult) (valueOf pageResult) := by
  have items : Means (array [textOf formItems, textOf pageItems]) (.arr [valueOf formItems, valueOf pageItems]) := by
    refine @means_array (List Item) textOf valueOf [formItems, pageItems] ?_
    exact List.forall_mem_cons.mpr ⟨form_means, List.forall_mem_singleton.mpr page_means⟩
  refine means_members pageResult (by decide) ?_
  simp only [pageResult, List.forall_mem_cons]
  exact ⟨intent_means, items, means_decimal 0, means_decimal 1, no_item⟩

theorem names_whole {items : List Item} (clean : ∀ key ∈ items.map Prod.fst, (0 : UInt8) ∉ utf8 key) :
    ∀ field ∈ items.map fun item => (utf8 item.1, item.2.2), StringText field.1 := by
  intro field inside
  obtain ⟨item, inside', rfl⟩ := List.mem_map.mp inside
  exact literal_text (clean _ (List.mem_map_of_mem inside'))

theorem form_reviewed : Reviewed (valueOf formItems) :=
  ⟨⟨_, rfl, names_whole (by decide)⟩, ⟨utf8 "form.pdf", rfl⟩, ⟨utf8 "needs_check", literal_text (by decide), rfl⟩,
    ⟨utf8 "ambiguous_preview", literal_text (by decide), rfl⟩, ⟨true, rfl⟩⟩

theorem page_reviewed : Reviewed (valueOf pageItems) :=
  ⟨⟨_, rfl, names_whole (by decide)⟩, ⟨utf8 "page.pdf", rfl⟩, ⟨utf8 "rejected", literal_text (by decide), rfl⟩,
    ⟨utf8 "model_choice", literal_text (by decide), rfl⟩, ⟨false, rfl⟩⟩

theorem scaled_finite {n : Nat} (few : n < 2 ^ 31) : Json.Finite (ofScaled false 10 n 0) := by
  have same : ofScaled false 10 n 0 = ofRatio false n 1 := by
    rw [ofScaled, if_pos (Int.le_refl 0)]
    exact congrArg (fun m => ofRatio false m 1) (Nat.mul_one n)
  rw [same]
  exact count_finite few

def pageResults : ResultSet where
  text := textOf pageResult
  fields := pageResult.map fun item : Item => (utf8 item.1, item.2.2)
  items := [valueOf formItems, valueOf pageItems]
  document := result_means
  shaped :=
    { names := names_whole (by decide)
      listed := rfl
      reviewed := List.forall_mem_cons.mpr ⟨form_reviewed, List.forall_mem_singleton.mpr page_reviewed⟩
      few := by decide
      shortlist := ⟨_, @scaled_finite 0 (by decide), rfl⟩
      reviews := ⟨_, @scaled_finite 1 (by decide), rfl⟩ }

def matchText : Bytes :=
  object [member "verdicts" (array [object [member "number" (decimal 0), member "status" (quoted (utf8 "match")),
    member "quote" (quoted (utf8 "Application for a library card"))]])]

def answerText : Bytes :=
  object [member "choices" (array [object [member "message" (object [member "content" (quoted matchText)])]])]

theorem page_accepted : accepted (fun _ => some answerText) pageResults.seen = true := by
  decide +kernel

end Verification

end SamosaChat.Verification
