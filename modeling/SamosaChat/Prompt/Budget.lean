import SamosaChat.Prompt.Review

set_option autoImplicit false

namespace SamosaChat.Prompt

open Utf8 Text Json Decimal Binary64

structure Backend where
  applyTemplate : Bytes → Option Jval
  tokenize : Bytes → Option Jval

def sizeMax : Nat := 2 ^ 64 - 1

def jsonText (value : Jval) : Bytes :=
  (textJsonValue [] value).getD []

def messagesKey : Bytes := utf8 "messages"

def templateRequest (messages : Jval) (tools : Option Jval) : Bytes :=
  utf8 "\x7b\"messages\":" ++ jsonText messages ++ tools.elim [] (fun tools => utf8 ",\"tools\":" ++ jsonText tools) ++
    utf8 ",\"add_generation_prompt\":true,\"chat_template_kwargs\":\x7b\"enable_thinking\":false\x7d\x7d"

def tokenRequest (prompt : Bytes) : Bytes :=
  utf8 "\x7b\"content\":" ++ quoted prompt ++ utf8 ",\"add_special\":false,\"parse_special\":true\x7d"

def exactCount (backend : Backend) (messages : Jval) (tools : Option Jval) : Option Nat :=
  match (backend.applyTemplate (templateRequest messages tools)).bind (jsonGet · (utf8 "prompt")) with
  | some (.str prompt) =>
    match (backend.tokenize (tokenRequest prompt)).bind (jsonGet · (utf8 "tokens")) with
    | some (.arr tokens) => some tokens.length
    | _ => none
  | _ => none

def promptTokenCount (backend : Backend) (root : Jval) : Nat × Bool :=
  match jsonGet root messagesKey with
  | some (.arr kids) =>
    let tools := jsonGet root (utf8 "tools")
    match exactCount backend (.arr kids) tools with
    | some count => (count, true)
    | none => ((jsonText (.arr kids) ++ tools.elim [] jsonText).length + 1024 + kids.length * 64, false)
  | _ => (sizeMax, false)

def promptRequestTokens (backend : Backend) (request : Bytes) : Nat :=
  match jsonParse request with
  | .ok (root, _) => (promptTokenCount backend root).1
  | .error _ => sizeMax

def maxTokensKey : Bytes := utf8 "max_tokens"

def maxCompletionKey : Bytes := utf8 "max_completion_tokens"

def isLimit (field : Bytes × Jval) : Bool :=
  field.1 == maxTokensKey || field.1 == maxCompletionKey

def payloadFields : Bool → List (Bytes × Jval) → Bytes
  | _, [] => []
  | wrote, (key, kid) :: fields =>
    (if wrote then [0x2c] else []) ++ quoted key ++ [0x3a] ++ jsonText kid ++ payloadFields true fields

def payloadTail (wrote : Bool) (answer : Nat) : Bytes :=
  (if wrote then [0x2c] else []) ++ utf8 "\"max_tokens\":" ++ decimal answer ++ [0x7d]

def promptPayloadWrite (fields : List (Bytes × Jval)) (answer : Nat) : Bytes :=
  let kept := fields.filter fun field => !isLimit field
  [0x7b] ++ payloadFields false kept ++ payloadTail (!kept.isEmpty) answer

def setFirst (key : Bytes) (f : Jval → Jval) : List (Bytes × Jval) → List (Bytes × Jval)
  | [] => []
  | (name, kid) :: fields => if name = key then (name, f kid) :: fields else (name, kid) :: setFirst key f fields

def onField (key : Bytes) (f : Jval → Jval) : Jval → Jval
  | .obj fields => .obj (setFirst key f fields)
  | value => value

def lastKid (f : Jval → Jval) : List Jval → List Jval
  | [] => []
  | [kid] => [f kid]
  | kid :: kids => kid :: lastKid f kids

def onLast (f : Jval → Jval) : Jval → Jval
  | .arr kids => .arr (lastKid f kids)
  | value => value

def contentKey : Bytes := utf8 "content"

def promptReplaceText (fields : List (Bytes × Jval)) (text : Bytes) : List (Bytes × Jval) :=
  setFirst messagesKey (onLast (onField contentKey fun _ => .str text)) fields

def contentOf (fields : List (Bytes × Jval)) : Option Bytes :=
  match jsonGet (.obj fields) messagesKey with
  | some (.arr kids) =>
    match kids.getLast?.bind (jsonGet · contentKey) with
    | some (.str content) => some content
    | _ => none
  | _ => none

def promptWireText (text : Bytes) : Except Stop (Option Bytes) :=
  (jsonParse (quoted text)).map fun decoded =>
    match decoded.1 with
    | .str wire => some wire
    | _ => none

def requestedLimit (fields : List (Bytes × Jval)) : Option Jval :=
  (jsonGet (.obj fields) maxTokensKey).or (jsonGet (.obj fields) maxCompletionKey)

-- An integral limit of the client from 1 on lowers the answer.
def answerFor (context : Nat) (fields : List (Bytes × Jval)) : Nat :=
  let most := min (context / 4) 2048
  match requestedLimit fields with
  | some (.num num) =>
    match natural num with
    | some n => if 1 ≤ n ∧ n < most then n else most
    | none => most
  | _ => most

def promptLimit (context answer : Nat) : Nat :=
  if context > answer + 256 then context - answer - 256 else 0

def derivedNote : Bytes :=
  utf8 ("\n[Derived question-focused evidence notes; paraphrases, not exact quotations. " ++
    "Inventory and coverage facts above remain authoritative.]\n")

structure Turn where
  returned : Bool
  payload : Bytes
  failure : Option Failure
  rounds : Nat
  smaller : List Nat
deriving DecidableEq

structure Reduction where
  root : Option (List (Bytes × Jval))
  failure : Option Failure
  rounds : Nat
  smaller : List Nat

def Reduction.after (next : Nat) (reduction : Reduction) : Reduction :=
  { reduction with rounds := reduction.rounds + 1, smaller := next :: reduction.smaller }

section Turns

variable (backend : Backend) (outside : Outside) (model question : Bytes)

def stopped (failure : Option Failure) (rounds : Nat) : Reduction :=
  { root := none, failure := failure, rounds := rounds, smaller := [] }

def reduceRounds (fields : List (Bytes × Jval)) (front back : Bytes) :
    Nat → Nat → Nat → Budget → Nat → Bytes → Option Reduction
  | 0, _, _, budget, _, _ => some (stopped budget.failure 0)
  | rounds + 1, looks, asks, budget, tokens, working =>
    if outside.cancelled looks then some (stopped budget.failure 0)
    else
      match promptReviewSections outside (promptRequestTokens backend) model question working budget (looks + 1) asks with
      | none => none
      | some (none, review) => some (stopped review.failure 1)
      | some (some notes, review) =>
        let combined := promptReplaceText fields (front ++ notes ++ back)
        let next := promptTokenCount backend (.obj combined)
        if next.1 ≤ budget.promptLimit then
          some { root := some combined, failure := review.failure, rounds := 1, smaller := [] }
        else if tokens ≤ next.1 then some (stopped (some .noProgress) 1)
        else
          (reduceRounds fields front back rounds review.looks review.asks
            { budget with exact_ := next.2, failure := review.failure } next.1 notes).map (Reduction.after next.1)

def leftAlone (payload : Bytes) (failure : Option Failure) : Turn :=
  { returned := false, payload := payload, failure := failure, rounds := 0, smaller := [] }

def reduceTurn (payload : Bytes) (fields : List (Bytes × Jval)) (content evidence : Bytes) (budget : Budget) (tokens : Nat) :
    Option Turn :=
  if evidence = [] then some (leftAlone payload none)
  else
    match find evidence content with
    | none => some (leftAlone payload (some .encoding))
    | some position =>
      let preserved := (find (utf8 "[File: ") evidence).getD 0
      let front := content.take position ++ evidence.take preserved ++ derivedNote
      let back := content.drop (position + evidence.length)
      let bare := promptTokenCount backend (.obj (promptReplaceText fields (front ++ back)))
      if bare.1 < budget.promptLimit then
        (reduceRounds backend outside model question fields front back 8 0 0 { budget with exact_ := bare.2 } tokens
          (evidence.drop preserved)).map fun reduction =>
            { returned := reduction.root.isSome
              payload := reduction.root.elim payload fun combined => promptPayloadWrite combined budget.answer
              failure := reduction.failure
              rounds := reduction.rounds
              smaller := reduction.smaller }
      else some (leftAlone payload (some .promptTooLarge))

def budgetTurn (context : Nat) (payload : Bytes) (fields : List (Bytes × Jval)) (content evidence : Bytes) : Option Turn :=
  let answer := answerFor context fields
  let tokens := promptTokenCount backend (.obj fields)
  let budget : Budget :=
    { context := context, answer := answer, exact_ := tokens.2, promptLimit := promptLimit context answer, failure := none }
  if tokens.1 ≤ budget.promptLimit then
    some { returned := true, payload := promptPayloadWrite fields answer, failure := none, rounds := 0, smaller := [] }
  else reduceTurn backend outside model question payload fields content evidence budget tokens.1

def folderPromptBudget (context : Nat) (payload evidence : Bytes) : Except Stop (Option Turn) := do
  match ← promptWireText evidence with
  | none => return some (leftAlone payload none)
  | some evidence =>
    match (← jsonParse payload).1 with
    | .obj fields =>
      match contentOf fields with
      | none => return some (leftAlone payload none)
      | some content => return budgetTurn backend outside model question context payload fields content evidence
    | _ => return some (leftAlone payload none)

end Turns

end SamosaChat.Prompt
