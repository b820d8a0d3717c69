import SamosaChat.Tokenizer.Load

set_option autoImplicit false

namespace SamosaChat.Tokenizer

open Utf8

-- The code point at the start of the bytes and its width. A malformed byte stands for itself.
def u8Next (c : UInt8) (s : Bytes) : Nat × Nat :=
  if c < 0x80 then (c.toNat, 1)
  else
    match c >>> 5 == 0x6, c >>> 4 == 0xe, c >>> 3 == 0x1e, s with
    | true, _, _, s1 :: _ => ((c.toNat &&& 0x1f) <<< 6 ||| (s1.toNat &&& 0x3f), 2)
    | _, true, _, s1 :: s2 :: _ =>
      ((c.toNat &&& 0x0f) <<< 12 ||| (s1.toNat &&& 0x3f) <<< 6 ||| (s2.toNat &&& 0x3f), 3)
    | _, _, true, s1 :: s2 :: s3 :: _ =>
      ((c.toNat &&& 0x07) <<< 18 ||| (s1.toNat &&& 0x3f) <<< 12 ||| (s2.toNat &&& 0x3f) <<< 6 ||| (s3.toNat &&& 0x3f), 4)
    | _, _, _, _ => (c.toNat, 1)

structure CodePoint where
  cp : Nat
  bytes : Bytes

def scanUnits : Nat → Bytes → List CodePoint
  | 0, _ => []
  | _, [] => []
  | rounds + 1, c :: s =>
    let next := u8Next c s
    { cp := next.1, bytes := (c :: s).take next.2 } :: scanUnits rounds ((c :: s).drop next.2)

def units (s : Bytes) : List CodePoint :=
  scanUnits s.length s

-- A symbol of the byte-level string: soff and slen.
structure Span where
  off : Nat
  len : Nat

def Span.bytes (s : Bytes) (span : Span) : Bytes :=
  (s.drop span.off).take span.len

def spansFrom (off : Nat) : List CodePoint → List Span
  | [] => []
  | next :: rest => { off := off, len := next.bytes.length } :: spansFrom (off + next.bytes.length) rest

def better (best : Option (Nat × Nat)) (i : Nat) : Option Nat → Option (Nat × Nat)
  | none => best
  | some rk =>
    match best with
    | none => some (rk, i)
    | some (rank, bp) => if rk < rank then some (rk, i) else some (rank, bp)

def bestPair (merges : Hmap) (s : Bytes) : Nat → Option (Nat × Nat) → List Span → Option (Nat × Nat)
  | i, best, a :: b :: rest =>
    bestPair merges s (i + 1) (better best i (hmGet merges (mergeKey (a.bytes s) (b.bytes s)))) (b :: rest)
  | _, best, _ => best

def mergeAt : Nat → List Span → List Span
  | 0, a :: b :: rest => { off := a.off, len := b.off + b.len - a.off } :: rest
  | bp + 1, a :: rest => a :: mergeAt bp rest
  | _, spans => spans

def mergeLoop (merges : Hmap) (s : Bytes) : Nat → List Span → List Span
  | 0, spans => spans
  | rounds + 1, spans =>
    match bestPair merges s 0 none spans with
    | some (_, bp) => mergeLoop merges s rounds (mergeAt bp spans)
    | none => spans

def byteString (p : Bytes) : Bytes :=
  p.flatMap byte2str

def bpeSymbols (tok : Tok) (p : Bytes) : List Bytes :=
  let s := byteString p
  match tok.ignoreMerges, hmGet tok.vocab s with
  | true, some _ => [s]
  | _, _ =>
    let spans := spansFrom 0 (units s)
    (mergeLoop tok.merges s spans.length spans).map (Span.bytes s)

def emit {α : Type} (max : Nat) (out : List α) (entry : α) : List α :=
  if out.length < max then out ++ [entry] else out

def bpePiece (tok : Tok) (max : Nat) (out : List Nat) (p : Bytes) : List Nat :=
  ((bpeSymbols tok p).filterMap (hmGet tok.vocab)).foldl (emit max) out

-- The Unicode classes of tok_unicode.h.
structure Classes where
  isL : Nat → Bool
  isN : Nat → Bool
  isS : Nat → Bool

def isNl (c : Nat) : Bool :=
  c == 0x0d || c == 0x0a

def low (c : Nat) : Nat :=
  if 0x41 ≤ c ∧ c ≤ 0x5a then c + 32 else c

def contraction : List Nat → Option Nat
  | 0x27 :: d :: rest =>
    let d := low d
    let long :=
      match rest with
      | d2 :: _ => d == 0x72 && low d2 == 0x65 || d == 0x76 && low d2 == 0x65 || d == 0x6c && low d2 == 0x6c
      | [] => false
    if long then some 3
    else if d = 0x73 ∨ d = 0x74 ∨ d = 0x6d ∨ d = 0x64 then some 2
    else none
  | _ => none

section Alternatives

variable (classes : Classes)

def isOther (c : Nat) : Bool :=
  !classes.isS c && !classes.isL c && !classes.isN c

def letters : List Nat → Option Nat
  | [] => none
  | c :: rest =>
    if !classes.isL c && !isNl c && !classes.isN c then
      match rest with
      | d :: _ => if classes.isL d then some (1 + (rest.takeWhile classes.isL).length) else none
      | [] => none
    else if classes.isL c then some ((c :: rest).takeWhile classes.isL).length
    else none

def numbers : List Nat → Option Nat
  | [] => none
  | c :: rest => if classes.isN c then some (((c :: rest).take 3).takeWhile classes.isN).length else none

def others (cps : List Nat) : Option Nat :=
  match cps with
  | 0x20 :: d :: rest =>
    if isOther classes d then some (1 + run (d :: rest))
    else if isOther classes 0x20 then some (run cps)
    else none
  | c :: _ => if isOther classes c then some (run cps) else none
  | [] => none
where
  run (cps : List Nat) : Nat :=
    (cps.takeWhile (isOther classes)).length + ((cps.dropWhile (isOther classes)).takeWhile isNl).length

def spaces (cps : List Nat) : Option Nat :=
  let space := cps.takeWhile classes.isS
  if space = [] then none
  else
    let lines := (space.reverse.dropWhile fun c => !isNl c).length
    if 0 < lines then some lines
    else if space.length < cps.length then some (max 1 (space.length - 1))
    else some space.length

-- How many code points the next piece takes. The last alternative should not happen.
def nextCut (cps : List Nat) : Nat :=
  ((contraction cps).or ((letters classes cps).or ((numbers classes cps).or ((others classes cps).or (spaces classes cps))))).getD 1

def cutUnits : Nat → List CodePoint → List Bytes
  | 0, _ => []
  | _, [] => []
  | rounds + 1, next :: rest =>
    let k := nextCut classes ((next :: rest).map CodePoint.cp)
    ((next :: rest).take k).flatMap CodePoint.bytes :: cutUnits rounds ((next :: rest).drop k)

def pretokPieces (chunk : Bytes) : List Bytes :=
  cutUnits classes (units chunk).length (units chunk)

def pretokChunk (tok : Tok) (max : Nat) (out : List Nat) (chunk : Bytes) : List Nat :=
  (pretokPieces classes chunk).foldl (bpePiece tok max) out

inductive Part
  | chunk (bytes : Bytes)
  | added (special : Special)

-- The first place from which an added token can be read, and the first token there.
def hit (sp : List Special) : Bytes → Option (Nat × Special)
  | [] => none
  | c :: rest =>
    match sp.find? fun special => decide (0 < special.str.length) && special.str.isPrefixOf (c :: rest) with
    | some special => some (0, special)
    | none => (hit sp rest).map fun found => (found.1 + 1, found.2)

def splitAdded (sp : List Special) : Nat → Bytes → List Part
  | 0, _ => []
  | rounds + 1, text =>
    match hit sp text with
    | some (at_, special) =>
      (if at_ = 0 then [] else [.chunk (text.take at_)]) ++
        .added special :: splitAdded sp rounds (text.drop (at_ + special.str.length))
    | none => if text = [] then [] else [.chunk text]

def encodePart (tok : Tok) (max : Nat) (out : List Nat) : Part → List Nat
  | .chunk chunk => pretokChunk classes tok max out chunk
  | .added special => emit max out special.id

def tokEncodePolicy (tok : Tok) (text : Bytes) (max : Nat) (allowAddedTokens : Bool) : List Nat :=
  if allowAddedTokens then (splitAdded tok.sp text.length text).foldl (encodePart classes tok max) []
  else pretokChunk classes tok max [] text

def tokEncode (tok : Tok) (text : Bytes) (max : Nat) : List Nat :=
  tokEncodePolicy classes tok text max true

end Alternatives

def unitByte (next : CodePoint) : Option UInt8 :=
  if next.cp < 1024 then cp2byte next.cp else none

def idBytes (tok : Tok) (id : Nat) : Bytes :=
  if tok.nIds ≤ id then []
  else
    match tok.id2str id with
    | none => []
    | some s => if tok.idAdded id then s else (units s).filterMap unitByte

def tokDecode (tok : Tok) (ids : List Nat) (max : Nat) : Bytes :=
  ids.foldl (fun out id => (idBytes tok id).foldl (emit max) out) []

end SamosaChat.Tokenizer
