import SamosaChat.Lib.Text
import SamosaChat.Lib.Utf8Scan

set_option autoImplicit false

namespace SamosaChat.Html

open Utf8 Text

inductive HtmlError
  | htmlInvalidUtf8
  | htmlBinaryControl
  | htmlOutputLimit
  | htmlInputLimit
  | outOfMemory
  deriving DecidableEq

def sizeMax : Nat := 2 ^ 64 - 1

def htmlTitleMaxBytes : Nat := 4096

def htmlSkipDepth : Nat := 32

-- `cap` is zero until the buffer has data.
structure HtmlBuffer where
  data : Bytes := []
  cap : Nat := 0
  limit : Nat
  limited : Bool := false

structure Heap where
  repaired : Nat → Bool
  text : Nat → Bool
  title : Nat → Bool

def asciiSpace (c : UInt8) : Bool :=
  c == 0x20 || c == 0x09 || c == 0x0d || c == 0x0a || c == 0x0c

def asciiPrefixCi (pre : Bytes) (rest : Bytes) : Bool :=
  pre.length ≤ rest.length && (rest.take pre.length).map toLower == pre

def continues (c : UInt8) (continuation : Nat) (rest : Bytes) : Bool :=
  if continuation > rest.length then false
  else if c == 0xe0 && rest.headD 0 < 0xa0 then false
  else if c == 0xed && rest.headD 0 ≥ 0xa0 then false
  else if c == 0xf0 && rest.headD 0 < 0x90 then false
  else if c == 0xf4 && rest.headD 0 ≥ 0x90 then false
  else (rest.take continuation).all fun b => b &&& 0xc0 == 0x80

def validUtf8From : Nat → Bytes → Bool
  | _, [] => true
  | 0, _ => false
  | fuel + 1, c :: rest =>
    if c < 0x80 then validUtf8From fuel rest
    else if c ≥ 0xc2 && c ≤ 0xdf then continues c 1 rest && validUtf8From fuel (rest.drop 1)
    else if c ≥ 0xe0 && c ≤ 0xef then continues c 2 rest && validUtf8From fuel (rest.drop 2)
    else if c ≥ 0xf0 && c ≤ 0xf4 then continues c 3 rest && validUtf8From fuel (rest.drop 3)
    else false

def validUtf8 (data : Bytes) : Bool :=
  validUtf8From data.length data

def utf8SequenceWidth (rest : Bytes) : Nat :=
  scanWidth rest

def binaryControl (c : UInt8) : Bool :=
  (c < 0x20 && !asciiSpace c) || c == 0x7f

def samosaHtmlTextValid (data : Bytes) : Except HtmlError Unit :=
  if data.isEmpty || !validUtf8 data then .error .htmlInvalidUtf8
  else if data.any binaryControl then .error .htmlBinaryControl
  else .ok ()

def growCap (limit need : Nat) : Nat → Nat → Nat
  | 0, cap => cap
  | rounds + 1, cap =>
    if cap < need then
      if cap > (limit + 1) / 2 then limit + 1 else growCap limit need rounds (cap * 2)
    else cap

def bufferReserve (grants : Nat → Bool) (buffer : HtmlBuffer) (extra : Nat) : Bool × HtmlBuffer :=
  if extra > buffer.limit || buffer.data.length > buffer.limit - extra then (false, { buffer with limited := true })
  else
    let need := buffer.data.length + extra + 1
    if need ≤ buffer.cap then (true, buffer)
    else
      let cap := growCap buffer.limit need 64 (if buffer.cap = 0 then 1024 else buffer.cap)
      if grants cap then (true, { buffer with cap := cap }) else (false, buffer)

def bufferPutn (grants : Nat → Bool) (buffer : HtmlBuffer) (text : Bytes) : Bool × HtmlBuffer :=
  match bufferReserve grants buffer text.length with
  | (false, after) => (false, after)
  | (true, after) => (true, { after with data := after.data ++ text })

def titlePutn (grants : Nat → Bool) (buffer : HtmlBuffer) (text : Bytes) : Bool × HtmlBuffer :=
  if buffer.data.length ≥ buffer.limit then (true, buffer)
  else bufferPutn grants buffer (text.take (buffer.limit - buffer.data.length))

def tagEnd (quote : UInt8) : Bytes → Option Nat
  | [] => none
  | c :: rest =>
    if quote != 0 then (tagEnd (if c = quote then 0 else quote) rest).map (· + 1)
    else if c = 0x27 || c = 0x22 then (tagEnd c rest).map (· + 1)
    else if c = 0x3e then some 0
    else (tagEnd 0 rest).map (· + 1)

def tagName (inside : Bytes) : Option (Bool × Bytes) :=
  let start := inside.dropWhile asciiSpace
  let closing := start.head? == some 0x2f
  let name := if closing then (start.drop 1).dropWhile asciiSpace else start
  match name with
  | [] => none
  | c :: _ =>
    if isAlpha c then
      some (closing, ((name.takeWhile fun c => isAlnum c || c == 0x2d || c == 0x3a).take 19).map toLower)
    else none

def skipTag (tag : Bytes) : Bool :=
  (["script", "style", "svg", "noscript", "template", "iframe", "object"].map utf8).contains tag

def blockTag (tag : Bytes) : Bool :=
  (["address", "article", "aside", "blockquote", "dd", "div", "dl", "dt", "figcaption", "figure", "footer", "form",
    "h1", "h2", "h3", "h4", "h5", "h6", "header", "hr", "main", "nav", "ol", "p", "pre", "section", "table", "tr",
    "ul"].map utf8).contains tag

def utf8Encode (code : Nat) : Bytes :=
  if code ≤ 0x7f then [.ofNat code]
  else if code ≤ 0x7ff then [.ofNat (0xc0 ||| code >>> 6), .ofNat (0x80 ||| (code &&& 0x3f))]
  else if code ≤ 0xffff && !(0xd800 ≤ code && code ≤ 0xdfff) then
    [.ofNat (0xe0 ||| code >>> 12), .ofNat (0x80 ||| (code >>> 6 &&& 0x3f)), .ofNat (0x80 ||| (code &&& 0x3f))]
  else if code ≤ 0x10ffff then
    [.ofNat (0xf0 ||| code >>> 18), .ofNat (0x80 ||| (code >>> 12 &&& 0x3f)), .ofNat (0x80 ||| (code >>> 6 &&& 0x3f)),
      .ofNat (0x80 ||| (code &&& 0x3f))]
  else []

def digitValue (base : Nat) (c : UInt8) : Option Nat :=
  if 0x30 ≤ c && c ≤ 0x39 then some (c.toNat - 0x30)
  else if base == 16 && 0x61 ≤ c && c ≤ 0x66 then some (c.toNat - 0x61 + 10)
  else if base == 16 && 0x41 ≤ c && c ≤ 0x46 then some (c.toNat - 0x41 + 10)
  else none

def numericCode (base : Nat) : Nat → Bytes → Option Nat
  | code, [] => some code
  | code, c :: rest =>
    match digitValue base c with
    | none => none
    | some digit =>
      if code > (0x10ffff - digit) / base then none else numericCode base (code * base + digit) rest

def named : List (Bytes × Bytes) :=
  [(utf8 "amp", utf8 "&"), (utf8 "lt", utf8 "<"), (utf8 "gt", utf8 ">"), (utf8 "quot", utf8 "\""),
    (utf8 "apos", utf8 "'"), (utf8 "nbsp", utf8 " "), (utf8 "copy", [0xc2, 0xa9]), (utf8 "reg", [0xc2, 0xae]),
    (utf8 "mdash", [0xe2, 0x80, 0x94]), (utf8 "ndash", [0xe2, 0x80, 0x93]), (utf8 "hellip", [0xe2, 0x80, 0xa6]),
    (utf8 "laquo", [0xc2, 0xab]), (utf8 "raquo", [0xc2, 0xbb])]

def numericEntity (digits : Bytes) : Option Bytes :=
  let hex := digits.head? == some 0x78 || digits.head? == some 0x58
  let digits := if hex then digits.drop 1 else digits
  if digits.isEmpty then none
  else
    match numericCode (if hex then 16 else 10) 0 digits with
    | none => none
    | some code =>
      if code < 0x20 || (0x7f ≤ code && code ≤ 0x9f) || (0xd800 ≤ code && code ≤ 0xdfff) then none
      else if (utf8Encode code).isEmpty then none
      else some (utf8Encode code)

def entityValue (name : Bytes) : Option Bytes :=
  match name with
  | [] => none
  | c :: rest =>
    if c = 0x23 then numericEntity rest
    else if name.length ≥ 20 then none
    else (named.find? fun entry => entry.1 == name.map toLower).map (·.2)

def normalizeFrom (started : Bool) (pending : Option Bool) : Bytes → Bytes
  | [] => []
  | c :: rest =>
    if asciiSpace c then normalizeFrom started (some (pending.getD false || c == 0x0a || c == 0x0d)) rest
    else
      match pending with
      | some newline =>
        (if started then [if newline then 0x0a else 0x20] else []) ++ c :: normalizeFrom true none rest
      | none => c :: normalizeFrom true none rest

def normalizeWhitespace (text : Bytes) : Bytes :=
  normalizeFrom false none (cstr text)

def utf8Chars (text : Bytes) : Nat :=
  ((cstr text).filter fun c => c &&& 0xc0 != 0x80).length

structure Extraction where
  text : HtmlBuffer
  title : HtmlBuffer
  skip : List Bytes := []
  skipOverflow : Nat := 0
  inTitle : Bool := false
  inHead : Bool := false

structure SamosaHtmlResult where
  text : Bytes
  title : Bytes
  textBytes : Nat
  textChars : Nat

def failed (text : HtmlBuffer) : HtmlError :=
  if text.limited then .htmlOutputLimit else .outOfMemory

def putText (heap : Heap) (state : Extraction) (text : Bytes) : Except HtmlError Extraction :=
  match bufferPutn heap.text state.text text with
  | (true, after) => .ok { state with text := after }
  | (false, after) => .error (failed after)

def putTitle (heap : Heap) (state : Extraction) (text : Bytes) : Except HtmlError Extraction :=
  match titlePutn heap.title state.title text with
  | (true, after) => .ok { state with title := after }
  | (false, _) => .error (failed state.text)

def put (heap : Heap) (state : Extraction) (text : Bytes) : Except HtmlError Extraction :=
  if state.inTitle then putTitle heap state text else putText heap state text

def skipped (state : Extraction) (closing : Bool) (tag : Bytes) : Extraction :=
  if closing && state.skipOverflow > 0 && skipTag tag then { state with skipOverflow := state.skipOverflow - 1 }
  else if closing && state.skip.head? == some tag then { state with skip := state.skip.drop 1 }
  else if !closing && skipTag tag then
    if state.skip.length < htmlSkipDepth then { state with skip := tag :: state.skip }
    else { state with skipOverflow := state.skipOverflow + 1 }
  else state

def lineBreak (heap : Heap) (state : Extraction) (tag : Bytes) : Except HtmlError Extraction :=
  if tag = utf8 "br" ∨ tag = utf8 "hr" ∨ blockTag tag then putText heap state [0x0a] else .ok state

def markup (heap : Heap) (state : Extraction) (closing : Bool) (tag : Bytes) : Except HtmlError Extraction := do
  let state ← lineBreak heap state tag
  if closing = false ∧ tag = utf8 "li" then putText heap state (utf8 "\n- ")
  else if closing = true ∧ (tag = utf8 "td" ∨ tag = utf8 "th") then putText heap state (utf8 " | ")
  else .ok state

def openTag (heap : Heap) (state : Extraction) (closing : Bool) (tag : Bytes) : Except HtmlError Extraction :=
  if state.skip ≠ [] then .ok (skipped state closing tag)
  else if closing = false ∧ skipTag tag then .ok { state with skip := [tag] }
  else if tag = utf8 "title" then .ok { state with inTitle := !closing }
  else if tag = utf8 "head" then .ok { state with inHead := !closing }
  else if state.inTitle then .ok state
  else markup heap state closing tag

-- What the loop does at a '<'; `after` is what follows it.
def extractTag (heap : Heap) (state : Extraction) (after : Bytes) : Except HtmlError (Extraction × Bytes) :=
  match tagEnd 0 after with
  | none =>
    if state.skip ≠ [] then .ok (state, [])
    else (put heap state [0x3c]).map fun state => (state, after)
  | some stop =>
    match tagName (after.take stop) with
    | none =>
      if state.skip = [] ∧ after.head? ≠ some 0x21 ∧ after.head? ≠ some 0x3f then
        if state.inTitle then (putTitle heap state [0x3c]).map fun state => (state, after)
        else if state.inHead then .ok (state, after)
        else (putText heap state [0x3c]).map fun state => (state, after)
      else .ok (state, after.drop (stop + 1))
    | some (closing, tag) => (openTag heap state closing tag).map fun state => (state, after.drop (stop + 1))

def entityName (after : Bytes) : Bytes :=
  (after.take 32).takeWhile fun c => c != 0x3b && c != 0x3c && !asciiSpace c

def entityAt (after : Bytes) : Option (Bytes × Bytes) :=
  let name := entityName after
  if after[name.length]? = some 0x3b then
    (entityValue name).map fun decoded => (decoded, after.drop (name.length + 1))
  else none

def extractOne (heap : Heap) (state : Extraction) (c : UInt8) (after : Bytes) :
    Except HtmlError (Extraction × Bytes) :=
  if c = 0x3c then
    if asciiPrefixCi (utf8 "<!--") (c :: after) then
      match find (utf8 "-->") (after.drop 3) with
      | none => .ok (state, [])
      | some i => .ok (state, after.drop (3 + i + 3))
    else extractTag heap state after
  else if state.skip ≠ [] ∨ (state.inHead ∧ !state.inTitle) then .ok (state, after)
  else
    match if c = 0x26 then entityAt after else none with
    | some (decoded, next) => (put heap state decoded).map fun state => (state, next)
    | none => (put heap state [c]).map fun state => (state, after)

def extractLoop (heap : Heap) : Nat → Extraction → Bytes → Except HtmlError Extraction
  | _, state, [] => .ok state
  | 0, state, _ => .ok state
  | rounds + 1, state, c :: after =>
    match extractOne heap state c after with
    | .error error => .error error
    | .ok (state, next) => extractLoop heap rounds state next

def settleText (heap : Heap) (state : Extraction) : Except HtmlError Extraction :=
  if state.text.cap = 0 then putText heap state [] else .ok state

def settleTitle (heap : Heap) (state : Extraction) : Except HtmlError Extraction :=
  if state.title.cap = 0 then
    match bufferPutn heap.title state.title [] with
    | (true, after) => .ok { state with title := after }
    | (false, _) => .error (failed state.text)
  else .ok state

-- A buffer nothing was put into still gets its terminator.
def settle (heap : Heap) (state : Extraction) : Except HtmlError Extraction := do
  let state ← settleText heap state
  settleTitle heap state

def samosaHtmlExtract (heap : Heap) (data : Bytes) (maxTextBytes : Nat) : Except HtmlError SamosaHtmlResult :=
  if maxTextBytes = 0 then .error .htmlOutputLimit
  else
    match samosaHtmlTextValid data with
    | .error error => .error error
    | .ok _ => do
      let body := if [0xef, 0xbb, 0xbf].isPrefixOf data then data.drop 3 else data
      let state ← extractLoop heap body.length { text := { limit := maxTextBytes }, title := { limit := htmlTitleMaxBytes } } body
      let state ← settle heap state
      let text := normalizeWhitespace state.text.data
      .ok { text := text, title := normalizeWhitespace state.title.data, textBytes := text.length, textChars := utf8Chars text }

def replacement : Bytes := [0xef, 0xbf, 0xbd]

def repairOne (rest : Bytes) : Bytes × Nat :=
  let width := utf8SequenceWidth rest
  if width = 0 ∨ (width = 1 ∧ binaryControl (rest.headD 0)) then (replacement, 1) else (rest.take width, width)

def repairLoop (grants : Nat → Bool) : Nat → HtmlBuffer → Bytes → Except HtmlError HtmlBuffer
  | _, buffer, [] => .ok buffer
  | 0, buffer, _ => .ok buffer
  | rounds + 1, buffer, c :: after =>
    match bufferPutn grants buffer (repairOne (c :: after)).1 with
    | (false, buffer) => .error (if buffer.limited then .htmlInputLimit else .outOfMemory)
    | (true, buffer) => repairLoop grants rounds buffer ((c :: after).drop (repairOne (c :: after)).2)

def repair (grants : Nat → Bool) (data : Bytes) : Except HtmlError HtmlBuffer :=
  repairLoop grants data.length { limit := data.length * 3 } data

def samosaHtmlExtractReplacingInvalid (heap : Heap) (data : Bytes) (maxTextBytes : Nat) :
    Except HtmlError SamosaHtmlResult :=
  if data.length > (sizeMax - 1) / 3 then .error .htmlInputLimit
  else
    match repair heap.repaired data with
    | .error error => .error error
    | .ok repaired => samosaHtmlExtract heap repaired.data maxTextBytes

end SamosaChat.Html
