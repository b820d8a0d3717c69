import SamosaChat.Prompt.Budget
import SamosaChat.Prompt.Sections

set_option autoImplicit false

namespace SamosaChat.Prompt

open Utf8 Text Json Decimal Binary64 FloatText

def Unchanged : List (Bytes × Jval) → List (Bytes × Jval) → Prop :=
  List.Forall₂ fun field field' => field.1 = field'.1 ∧ (field.1 ≠ messagesKey → field.2 = field'.2)

theorem unchanged_refl (fields : List (Bytes × Jval)) : Unchanged fields fields :=
  List.forall₂_same.mpr fun _ _ => ⟨rfl, fun _ => rfl⟩

theorem replace_unchanged (fields : List (Bytes × Jval)) (text : Bytes) : Unchanged fields (promptReplaceText fields text) := by
  unfold promptReplaceText
  induction fields with
  | nil => exact .nil
  | cons field fields ih =>
    rw [setFirst]
    by_cases here : field.1 = messagesKey
    · rw [if_pos here]
      exact .cons ⟨rfl, fun other => absurd here other⟩ (unchanged_refl fields)
    · rw [if_neg here]
      exact .cons ⟨rfl, fun _ => rfl⟩ ih

theorem find_set_first {key : Bytes} {f : Jval → Jval} {fields : List (Bytes × Jval)} {kid : Jval}
    (found : Json.find key fields = some kid) : Json.find key (setFirst key f fields) = some (f kid) := by
  induction fields with
  | nil => cases found
  | cons field fields ih =>
    rw [Json.find] at found
    rw [setFirst]
    by_cases here : field.1 = key
    · rw [if_pos here] at found
      cases found
      rw [if_pos here, Json.find, if_pos here]
    · rw [if_neg here] at found
      rw [if_neg here, Json.find, if_neg here]
      exact ih found

theorem last_kid_last (f : Jval → Jval) (kids : List Jval) : (lastKid f kids).getLast? = kids.getLast?.map f := by
  induction kids with
  | nil => rfl
  | cons kid kids ih =>
    cases kids with
    | nil => rfl
    | cons kid' kids =>
      have some_ : lastKid f (kid' :: kids) ≠ [] := by
        cases kids <;> simp [lastKid]
      rw [lastKid, List.getLast?_cons_of_ne_nil some_, ih, List.getLast?_cons_cons]
      simp

theorem replace_content {fields : List (Bytes × Jval)} {content : Bytes} (text : Bytes) (held : contentOf fields = some content) :
    contentOf (promptReplaceText fields text) = some text := by
  unfold contentOf at held
  split at held
  · next kids messages =>
      split at held
      · next old known =>
          obtain ⟨last, at_, inner⟩ := Option.bind_eq_some_iff.mp known
          cases last with
          | obj inside =>
            have replaced := find_set_first (f := onLast (onField contentKey fun _ => .str text)) messages
            have within : jsonGet (onField contentKey (fun _ => .str text) (.obj inside)) contentKey = some (.str text) :=
              find_set_first inner
            have there : jsonGet (.obj (promptReplaceText fields text)) messagesKey =
                some (.arr (lastKid (onField contentKey fun _ => .str text) kids)) := replaced
            rw [contentOf, there]
            simp only [last_kid_last, at_, Option.map_some, Option.bind_some, within]
          | null => cases inner
          | bool boolean => cases inner
          | num num => cases inner
          | str str => cases inner
          | arr kids' => cases inner
      · cases held
  · cases held

theorem json_text_eq (value : Jval) : jsonText value = written value := by
  rw [jsonText, text_json_value_eq]
  rfl

theorem payload_fields_eq (wrote : Bool) (fields : List (Bytes × Jval)) : payloadFields wrote fields = writtenFields (!wrote) fields := by
  induction fields generalizing wrote with
  | nil => rfl
  | cons field fields ih =>
    rw [payloadFields, writtenFields, quoted_eq, json_text_eq, ih]
    cases wrote <;> simp

theorem written_fields_append (first : Bool) (fields : List (Bytes × Jval)) (field : Bytes × Jval) :
    writtenFields first (fields ++ [field]) = writtenFields first fields ++ writtenFields (first && fields.isEmpty) [field] := by
  induction fields generalizing first with
  | nil => simp [writtenFields]
  | cons other fields ih =>
    rw [List.cons_append, writtenFields, writtenFields, ih]
    cases fields <;> cases first <;> simp

theorem max_tokens_escaped : escaped maxTokensKey = maxTokensKey := by
  decide +kernel

def budgeted (fields : List (Bytes × Jval)) (answer : Nat) (small : answer ≤ 2 ^ 53) : List (Bytes × Jval) :=
  (fields.filter fun field => !isLimit field) ++ [(maxTokensKey, .num (integer false answer small))]

theorem payload_written (fields : List (Bytes × Jval)) (answer : Nat) (small : answer ≤ 2 ^ 53) :
    promptPayloadWrite fields answer = written (.obj (budgeted fields answer small)) := by
  have number : format (integer false answer small) = decimal answer := by
    unfold integer format
    simp only [Bool.false_eq_true, if_false]
    exact format_integer (Nat.lt_of_le_of_lt small (by decide))
  have name : utf8 "\"max_tokens\":" = 0x22 :: maxTokensKey ++ [0x22, 0x3a] := by decide +kernel
  have tail : ∀ wrote : Bool, payloadTail wrote answer =
      writtenFields (!wrote) [(maxTokensKey, .num (integer false answer small))] ++ [0x7d] := by
    intro wrote
    rw [writtenFields, writtenFields, written, number, max_tokens_escaped, payloadTail, name]
    cases wrote <;> simp
  unfold promptPayloadWrite
  simp only
  rw [written, budgeted, payload_fields_eq, tail, written_fields_append]
  simp

section Rounds

variable {backend : Backend} {outside : Outside} {model question : Bytes}

-- What the rounds come to: at most so many of them, each with a shorter prompt than the one before, and a prompt that fits
-- if any.
structure Reduced (backend : Backend) (fields : List (Bytes × Jval)) (front back : Bytes) (limit rounds tokens : Nat)
    (reduction : Reduction) : Prop where
  few : reduction.rounds ≤ rounds
  smaller : (tokens :: reduction.smaller).IsChain (· > ·)
  fits : ∀ combined, reduction.root = some combined → ∃ notes, combined = promptReplaceText fields (front ++ notes ++ back) ∧
    (promptTokenCount backend (.obj combined)).1 ≤ limit

theorem stopped_reduced {fields : List (Bytes × Jval)} {front back : Bytes} {limit rounds run tokens : Nat}
    (failure : Option Failure) (few : run ≤ rounds) : Reduced backend fields front back limit rounds tokens (stopped failure run) :=
  ⟨few, .singleton tokens, fun combined none_ => by cases none_⟩

theorem reduce_rounds_spec {fields : List (Bytes × Jval)} {front back : Bytes} (rounds : Nat) :
    ∀ (looks asks : Nat) (budget : Budget) (tokens : Nat) (working : Bytes),
      ∃ reduction, reduceRounds backend outside model question fields front back rounds looks asks budget tokens working =
          some reduction ∧ Reduced backend fields front back budget.promptLimit rounds tokens reduction := by
  induction rounds with
  | zero => exact fun _ _ budget _ _ => ⟨_, rfl, stopped_reduced _ (Nat.le_refl _)⟩
  | succ rounds ih =>
    intro looks asks budget tokens working
    rw [reduceRounds]
    by_cases stop : outside.cancelled looks = true
    · rw [if_pos stop]
      exact ⟨_, rfl, stopped_reduced _ (Nat.zero_le _)⟩
    · rw [if_neg stop]
      obtain ⟨answer, review, ran, _⟩ := prompt_review_sections outside (promptRequestTokens backend) model question working
        budget (looks + 1) asks
      rw [ran]
      cases answer with
      | none => exact ⟨_, rfl, stopped_reduced _ (Nat.succ_le_succ (Nat.zero_le _))⟩
      | some notes =>
        simp only
        generalize same : promptReplaceText fields (front ++ notes ++ back) = combined
        by_cases fits : (promptTokenCount backend (.obj combined)).1 ≤ budget.promptLimit
        · rw [if_pos fits]
          refine ⟨_, rfl, Nat.succ_le_succ (Nat.zero_le _), .singleton tokens, ?_⟩
          rintro combined' made
          cases made
          exact ⟨notes, same.symm, fits⟩
        · rw [if_neg fits]
          by_cases longer : tokens ≤ (promptTokenCount backend (.obj combined)).1
          · rw [if_pos longer]
            exact ⟨_, rfl, stopped_reduced _ (Nat.succ_le_succ (Nat.zero_le _))⟩
          · rw [if_neg longer]
            obtain ⟨reduction, later, reduced⟩ := ih review.looks review.asks
              { budget with exact_ := (promptTokenCount backend (.obj combined)).2, failure := review.failure }
              (promptTokenCount backend (.obj combined)).1 notes
            refine ⟨reduction.after (promptTokenCount backend (.obj combined)).1, by rw [later]; rfl, ?_, ?_, reduced.fits⟩
            · exact Nat.succ_le_succ reduced.few
            · exact List.isChain_cons_cons.mpr ⟨Nat.lt_of_not_le longer, reduced.smaller⟩

end Rounds

def Kept (evidence content content' : Bytes) : Prop :=
  ∃ before preserved records after notes,
    content = before ++ (preserved ++ records) ++ after ∧ evidence = preserved ++ records ∧
      (find (utf8 "[File: ") evidence).getD 0 = preserved.length ∧
      content' = before ++ preserved ++ derivedNote ++ notes ++ after

theorem kept_of_found {evidence content : Bytes} {position : Nat} (notes : Bytes) (found : find evidence content = some position) :
    Kept evidence content (content.take position ++ evidence.take ((find (utf8 "[File: ") evidence).getD 0) ++ derivedNote ++
      notes ++ content.drop (position + evidence.length)) := by
  obtain ⟨here, _⟩ := find_some found
  obtain ⟨after, same⟩ := here
  have rest : content.drop (position + evidence.length) = after := by
    rw [← List.drop_drop, ← same, List.drop_left]
  have inside : (find (utf8 "[File: ") evidence).getD 0 ≤ evidence.length := by
    cases record : find (utf8 "[File: ") evidence with
    | none => exact Nat.zero_le _
    | some k => exact Nat.le_trans (Nat.le_add_right _ _) (found_length record)
  refine ⟨content.take position, evidence.take ((find (utf8 "[File: ") evidence).getD 0),
    evidence.drop ((find (utf8 "[File: ") evidence).getD 0), after, notes, ?_, ?_, ?_, by rw [rest]⟩
  · rw [List.take_append_drop, List.append_assoc, same, List.take_append_drop]
  · rw [List.take_append_drop]
  · rw [List.length_take, Nat.min_eq_left inside]

structure Rewritten (evidence payload payload' : Bytes) (fields fields' : List (Bytes × Jval)) (answer : Nat) : Prop where
  parsed : ∃ rest, jsonParse payload = .ok (.obj fields, rest)
  written : ∃ small : answer ≤ 2 ^ 53, payload' = written (.obj (budgeted fields' answer small)) ∧
    (Printable (.obj (budgeted fields' answer small)) → jsonParse payload' = .ok (.obj (budgeted fields' answer small), []))
  unchanged : Unchanged fields fields'
  kept : ∃ content content', contentOf fields = some content ∧ contentOf fields' = some content' ∧
    (content' = content ∨ Kept evidence content content')

def clientLimit (fields : List (Bytes × Jval)) : Option Nat :=
  match jsonGet (.obj fields) maxTokensKey with
  | some (.num num) => natural num
  | _ => none

theorem answer_for_le (context : Nat) (fields : List (Bytes × Jval)) : answerFor context fields ≤ min 2048 (context / 4) ∧
      ∀ n, clientLimit fields = some n → 1 ≤ n → answerFor context fields ≤ n := by
  unfold answerFor clientLimit requestedLimit
  simp only
  constructor
  · split
    · split
      · split_ifs <;> omega
      · omega
    · omega
  · intro n limit some_
    cases given : jsonGet (.obj fields) maxTokensKey with
    | none =>
      rw [given] at limit
      cases limit
    | some value =>
      rw [given] at limit
      cases value with
      | num num =>
        simp only at limit
        simp only [Option.some_or, limit]
        split_ifs <;> omega
      | null => cases limit
      | bool boolean => cases limit
      | str str => cases limit
      | arr kids => cases limit
      | obj fields => cases limit

section Turns

variable {backend : Backend} {outside : Outside} {model question : Bytes}

structure Budgeted (backend : Backend) (context : Nat) (evidence payload : Bytes) (fields : List (Bytes × Jval)) (turn : Turn) :
    Prop where
  alone : turn.returned = false → turn.payload = payload
  few : turn.rounds ≤ 8
  smaller : ((promptTokenCount backend (.obj fields)).1 :: turn.smaller).IsChain (· > ·)
  rewritten : turn.returned = true → ∃ fields' answer, Rewritten evidence payload turn.payload fields fields' answer ∧
    (promptTokenCount backend (.obj fields')).1 ≤ promptLimit context answer ∧ answer = answerFor context fields

variable {evidence payload : Bytes} {fields : List (Bytes × Jval)}

theorem alone_budgeted {context : Nat} (failure : Option Failure) :
    Budgeted backend context evidence payload fields (leftAlone payload failure) :=
  ⟨fun _ => rfl, Nat.zero_le _, .singleton _, fun returned => by cases returned⟩

theorem rewritten_payload {rest content content' : Bytes} {fields' : List (Bytes × Jval)} {answer : Nat}
    (parsed : jsonParse payload = .ok (.obj fields, rest)) (held : contentOf fields = some content)
    (held' : contentOf fields' = some content') (unchanged : Unchanged fields fields') (small : answer ≤ 2048)
    (kept : content' = content ∨ Kept evidence content content') :
    Rewritten evidence payload (promptPayloadWrite fields' answer) fields fields' answer := by
  have fits : answer ≤ 2 ^ 53 := by omega
  refine ⟨⟨rest, parsed⟩, ⟨fits, payload_written fields' answer fits, fun printable => ?_⟩, unchanged, content, content', held,
    held', kept⟩
  rw [payload_written fields' answer fits]
  exact parse_text _ (printable_writable _ printable)

theorem reduce_turn_budgeted {context : Nat} {rest content : Bytes} {exact_ : Bool}
    (parsed : jsonParse payload = .ok (.obj fields, rest)) (held : contentOf fields = some content) :
    ∃ turn, reduceTurn backend outside model question payload fields content evidence
        { context := context, answer := answerFor context fields, exact_ := exact_,
          promptLimit := promptLimit context (answerFor context fields), failure := none }
        (promptTokenCount backend (.obj fields)).1 = some turn ∧
      Budgeted backend context evidence payload fields turn := by
  unfold reduceTurn
  by_cases empty : evidence = []
  · rw [if_pos empty]
    exact ⟨_, rfl, alone_budgeted _⟩
  · rw [if_neg empty]
    cases found : find evidence content with
    | none => exact ⟨_, rfl, alone_budgeted _⟩
    | some position =>
      simp only
      split_ifs with room
      · obtain ⟨reduction, ran, reduced⟩ := @reduce_rounds_spec backend outside model question fields _ _ 8 0 0 _
          (promptTokenCount backend (.obj fields)).1 _
        rw [ran]
        refine ⟨_, rfl, ?_, reduced.few, reduced.smaller, ?_⟩
        · intro returned
          cases root : reduction.root with
          | none => simp [root]
          | some combined => simp [root] at returned
        · intro returned
          cases root : reduction.root with
          | none => simp [root] at returned
          | some combined =>
            obtain ⟨notes, rfl, fits⟩ := reduced.fits combined root
            refine ⟨_, answerFor context fields, ?_, fits, rfl⟩
            simp only [root, Option.elim_some]
            exact rewritten_payload parsed held (replace_content _ held) (replace_unchanged fields _)
              (by have := (answer_for_le context fields).1; omega) (.inr (kept_of_found notes found))
      · exact ⟨_, rfl, alone_budgeted _⟩

end Turns

-- The prompt limit, in integers: context - answer - 256, or nothing where that is negative.
theorem prompt_limit_le {context answer count : Nat} (fits : count ≤ promptLimit context answer) :
    count + answer + 256 ≤ context ∨ count = 0 := by
  unfold promptLimit at fits
  split_ifs at fits <;> omega

section Met

variable (backend : Backend) (outside : Outside) (model question : Bytes) (context : Nat) (payload evidence : Bytes)

structure Met (turn : Turn) : Prop where
  alone : turn.returned = false → turn.payload = payload
  few : turn.rounds ≤ 8
  smaller : ∀ fields rest, jsonParse payload = .ok (.obj fields, rest) →
    ((promptTokenCount backend (.obj fields)).1 :: turn.smaller).IsChain (· > ·)
  fits : turn.returned = true → ∃ wire fields fields' answer, promptWireText evidence = .ok (some wire) ∧
    Rewritten wire payload turn.payload fields fields' answer ∧ answer ≤ min 2048 (context / 4) ∧
    (∀ n, clientLimit fields = some n → 1 ≤ n → answer ≤ n) ∧
    ((promptTokenCount backend (.obj fields')).1 + answer + 256 ≤ context ∨ (promptTokenCount backend (.obj fields')).1 = 0)

variable {backend outside model question context payload evidence}

theorem alone_met (failure : Option Failure) : Met backend context payload evidence (leftAlone payload failure) :=
  ⟨fun _ => rfl, Nat.zero_le _, fun _ _ _ => .singleton _, fun returned => by cases returned⟩

theorem budgeted_met {turn : Turn} {fields : List (Bytes × Jval)} {wire rest : Bytes}
    (wired : promptWireText evidence = .ok (some wire)) (parsed : jsonParse payload = .ok (.obj fields, rest))
    (budgeted : Budgeted backend context wire payload fields turn) : Met backend context payload evidence turn := by
  refine ⟨budgeted.alone, budgeted.few, ?_, ?_⟩
  · intro fields' rest' again
    rw [parsed] at again
    cases again
    exact budgeted.smaller
  · intro returned
    obtain ⟨fields', answer, rewritten, fits, rfl⟩ := budgeted.rewritten returned
    obtain ⟨most, client⟩ := answer_for_le context fields
    exact ⟨wire, fields, fields', _, wired, rewritten, by omega, client, prompt_limit_le fits⟩

theorem budget_turn_budgeted {fields : List (Bytes × Jval)} {content rest wire : Bytes}
    (parsed : jsonParse payload = .ok (.obj fields, rest)) (held : contentOf fields = some content) :
    ∃ turn, budgetTurn backend outside model question context payload fields content wire = some turn ∧
      Budgeted backend context wire payload fields turn := by
  unfold budgetTurn
  simp only
  split_ifs with fits
  · refine ⟨_, rfl, ⟨(by intro returned; cases returned), Nat.zero_le _, .singleton _, fun _ => ?_⟩⟩
    exact ⟨fields, answerFor context fields, rewritten_payload parsed held held (unchanged_refl fields)
      (by have := (answer_for_le context fields).1; omega) (.inl rfl), fits, rfl⟩
  · exact reduce_turn_budgeted parsed held

end Met

-- The budget is met or the turn is left alone, whatever the backend counts and replies.
theorem folder_prompt_budget (backend : Backend) (outside : Outside) (model question : Bytes) (context : Nat)
    (payload evidence : Bytes) (result : Option Turn)
    (ran : folderPromptBudget backend outside model question context payload evidence = .ok result) :
    ∃ turn, result = some turn ∧ Met backend context payload evidence turn := by
  unfold folderPromptBudget at ran
  cases wired : promptWireText evidence with
  | error stop =>
    rw [wired] at ran
    cases ran
  | ok wire =>
    rw [wired] at ran
    cases wire with
    | none => exact ⟨_, (Except.ok.inj ran).symm, alone_met none⟩
    | some wire =>
      cases parsed : jsonParse payload with
      | error stop =>
        simp only [parsed] at ran
        cases ran
      | ok tree =>
        obtain ⟨root, rest⟩ := tree
        simp only [parsed] at ran
        cases root with
        | obj fields =>
          cases held : contentOf fields with
          | none =>
            simp only [bind, Except.bind, held] at ran
            exact ⟨_, (Except.ok.inj ran).symm, alone_met none⟩
          | some content =>
            simp only [bind, Except.bind, held] at ran
            obtain ⟨turn, made, budgeted⟩ := @budget_turn_budgeted backend outside model question context payload
              fields content rest wire parsed held
            exact ⟨turn, (Except.ok.inj ran).symm.trans made, budgeted_met wired parsed budgeted⟩
        | null => exact ⟨_, (Except.ok.inj ran).symm, alone_met none⟩
        | bool boolean => exact ⟨_, (Except.ok.inj ran).symm, alone_met none⟩
        | num num => exact ⟨_, (Except.ok.inj ran).symm, alone_met none⟩
        | str str => exact ⟨_, (Except.ok.inj ran).symm, alone_met none⟩
        | arr kids => exact ⟨_, (Except.ok.inj ran).symm, alone_met none⟩

def silent : Backend where
  applyTemplate := fun _ => none
  tokenize := fun _ => none

def nobody : Outside where
  cancelled := fun _ => false
  reply := fun _ => { body := none, late := false, later := false }

def zeroLimit : Bytes :=
  utf8 "\x7b\"messages\":[\x7b\"content\":\"hi\"\x7d],\"max_tokens\":0\x7d"

def zeroLimitTurn : Turn where
  returned := true
  payload := utf8 "\x7b\"messages\":[\x7b\"content\":\"hi\"\x7d],\"max_tokens\":2048\x7d"
  failure := none
  rounds := 0
  smaller := []

def zeroLimitFields : List (Bytes × Jval) :=
  [(messagesKey, .arr [.obj [(contentKey, .str (utf8 "hi"))]]), (maxTokensKey, .num (integer false 0 zero_small))]

-- A client's limit of no tokens at all is not kept to.
theorem zero_limit_ignored :
    jsonParse zeroLimit = .ok (.obj zeroLimitFields, []) ∧ clientLimit zeroLimitFields = some 0 ∧
      folderPromptBudget silent nobody [] [] 8192 zeroLimit [] = .ok (some zeroLimitTurn) ∧
      zeroLimitTurn.payload = written (.obj (budgeted zeroLimitFields 2048 (by decide))) := by
  have same : zeroLimit = written (.obj zeroLimitFields) := by decide +kernel
  have words : StringText messagesKey ∧ StringText contentKey ∧ StringText maxTokensKey ∧ StringText (utf8 "hi") :=
    ⟨⟨⟨messagesKey.map UInt8.toNat, by decide +kernel, by decide +kernel⟩, by decide +kernel⟩,
      ⟨⟨contentKey.map UInt8.toNat, by decide +kernel, by decide +kernel⟩, by decide +kernel⟩,
      ⟨⟨maxTokensKey.map UInt8.toNat, by decide +kernel, by decide +kernel⟩, by decide +kernel⟩,
      ⟨⟨[0x68, 0x69], by decide +kernel, by decide +kernel⟩, by decide +kernel⟩⟩
  refine ⟨?_, by decide +kernel, by decide +kernel, by decide +kernel⟩
  rw [same]
  exact parse_text _ ⟨words.1, ⟨⟨words.2.1, words.2.2.2, trivial⟩, trivial⟩, words.2.2.1, ⟨_, _, rfl⟩, trivial⟩

theorem folder_prompt_budget_small : ∃ turn, some zeroLimitTurn = some turn ∧ Met silent 8192 zeroLimit [] turn :=
  folder_prompt_budget silent nobody [] [] 8192 zeroLimit [] _ (by decide +kernel)

end SamosaChat.Prompt
