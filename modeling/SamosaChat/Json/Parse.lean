import SamosaChat.Json.Value

set_option autoImplicit false

namespace SamosaChat.Json

open Utf8 Text FloatText

-- A cursor is what is left of the text: at [] it stands on the terminator, which is still read.
-- Whatever lies behind the terminator is outside. fuel bounds the calls of the recursion.
inductive Stop
  | outside
  | fuel
deriving DecidableEq

def advance (k : Nat) (s : Bytes) : Except Stop Bytes :=
  if k ≤ s.length then .ok (s.drop k) else .error .outside

def readAt (s : Bytes) (i : Nat) : Except Stop UInt8 :=
  if i ≤ s.length then .ok (s.getD i 0) else .error .outside

def jWs (s : Bytes) : Bytes :=
  s.dropWhile isSpace

def strtoul16 (text : Bytes) : Nat :=
  let body := text.dropWhile isSpace
  let signed := body.head? == some 0x2d || body.head? == some 0x2b
  let digits := if signed then body.drop 1 else body
  let digits := if (utf8 "0x").isPrefixOf (digits.map toLower) then digits.drop 2 else digits
  let value := hexDigitsValue (digits.takeWhile isHex)
  if body.head? == some 0x2d then (2 ^ 32 - value % 2 ^ 32) % 2 ^ 32 else value % 2 ^ 32

def hexFour (s : Bytes) (i : Nat) : Except Stop Nat := do
  let a ← readAt s i
  let b ← readAt s (i + 1)
  let c ← readAt s (i + 2)
  let d ← readAt s (i + 3)
  return strtoul16 (cstr [a, b, c, d])

def isHigh (cp : Nat) : Bool :=
  0xd800 ≤ cp && cp ≤ 0xdbff

def isLow (lo : Nat) : Bool :=
  0xdc00 ≤ lo && lo ≤ 0xdfff

def pair (cp lo : Nat) : Nat :=
  0x10000 + (cp - 0xd800) <<< 10 + (lo - 0xdc00)

-- The UTF-8 bytes of a code point, each cut to a char.
def jPutCode (cp : Nat) : Bytes :=
  if cp < 0x80 then [.ofNat cp]
  else if cp < 0x800 then [.ofNat (0xc0 ||| cp >>> 6), .ofNat (0x80 ||| cp &&& 0x3f)]
  else if cp < 0x10000 then
    [.ofNat (0xe0 ||| cp >>> 12), .ofNat (0x80 ||| cp >>> 6 &&& 0x3f), .ofNat (0x80 ||| cp &&& 0x3f)]
  else
    [.ofNat (0xf0 ||| cp >>> 18), .ofNat (0x80 ||| cp >>> 12 &&& 0x3f), .ofNat (0x80 ||| cp >>> 6 &&& 0x3f),
      .ofNat (0x80 ||| cp &&& 0x3f)]

-- The second half of a surrogate pair. That "\u" stands before it is read first.
def lowHalf (cp : Nat) (s : Bytes) : Except Stop (Option Nat) :=
  if isHigh cp && s.take 2 == [0x5c, 0x75] then
    (hexFour s 2).map fun lo => if isLow lo then some lo else none
  else .ok none

def unicodeEscape (s : Bytes) : Except Stop (Bytes × Bytes) := do
  let cp ← hexFour s 0
  let s ← advance 4 s
  match ← lowHalf cp s with
  | some lo => (advance 6 s).map fun s => (jPutCode (pair cp lo), s)
  | none => return (jPutCode cp, s)

def unescape (e : UInt8) : UInt8 :=
  if e = 0x6e then 0x0a
  else if e = 0x74 then 0x09
  else if e = 0x72 then 0x0d
  else if e = 0x62 then 0x08
  else if e = 0x66 then 0x0c
  else e

def stringStep (c : UInt8) (s : Bytes) : Except Stop (Bytes × Bytes) :=
  if c = 0x5c then
    match s with
    | [] => .ok ([c], [])
    | e :: s => if e = 0x75 then unicodeEscape s else .ok ([unescape e], s)
  else .ok ([c], s)

def stringLoop : Nat → Bytes → Except Stop (Bytes × Bytes)
  | 0, _ => .error .fuel
  | _ + 1, [] => .ok ([], [])
  | fuel + 1, c :: s =>
    if c = 0x22 then .ok ([], s)
    else do
      let (part, s) ← stringStep c s
      let (rest, s) ← stringLoop fuel s
      return (part ++ rest, s)

def jParseStrRaw (s : Bytes) : Except Stop (Bytes × Bytes) := do
  let s ← advance 1 s
  let (bytes, s) ← stringLoop (s.length + 1) s
  return (cstr bytes, s)

-- Behind a kid: whether a comma asks for another one, and the cursor behind the comma or the bracket.
def delimiter (close : UInt8) (s : Bytes) : Bool × Bytes :=
  let s := jWs s
  if s.head? = some 0x2c then (true, s.drop 1)
  else if s.head? = some close then (false, s.drop 1)
  else (false, s)

def colon (s : Bytes) : Bytes :=
  let s := jWs s
  if s.head? = some 0x3a then s.drop 1 else s

def literal (width : Nat) (value : Jval) (s : Bytes) : Except Stop (Jval × Bytes) :=
  (advance width s).map fun s => (value, s)

mutual

def jParseVal : Nat → Bytes → Except Stop (Jval × Bytes)
  | 0, _ => .error .fuel
  | fuel + 1, s =>
    let s := jWs s
    let c := s.headD 0
    if c = 0x22 then (jParseStrRaw s).map fun (text, s) => (.str text, s)
    else if c = 0x7b then
      let s := jWs (s.drop 1)
      if s.head? = some 0x7d then .ok (.obj [], s.drop 1)
      else (jParseFields fuel s).map fun (fields, s) => (.obj fields, s)
    else if c = 0x5b then
      let s := jWs (s.drop 1)
      if s.head? = some 0x5d then .ok (.arr [], s.drop 1)
      else (jParseKids fuel s).map fun (kids, s) => (.arr kids, s)
    else if c = 0x74 then literal 4 (.bool true) s
    else if c = 0x66 then literal 5 (.bool false) s
    else if c = 0x6e then literal 4 .null s
    else
      let (num, s) := strtod s
      .ok (.num num, s)

def jParseKids : Nat → Bytes → Except Stop (List Jval × Bytes)
  | 0, _ => .error .fuel
  | fuel + 1, s => do
    let (val, s) ← jParseVal fuel s
    let (more, s) := delimiter 0x5d s
    if more then (jParseKids fuel s).map fun (kids, s) => (val :: kids, s)
    else return ([val], s)

def jParseFields : Nat → Bytes → Except Stop (List (Bytes × Jval) × Bytes)
  | 0, _ => .error .fuel
  | fuel + 1, s => do
    let (key, s) ← jParseStrRaw (jWs s)
    let (val, s) ← jParseVal fuel (colon s)
    let (more, s) := delimiter 0x7d s
    if more then (jParseFields fuel s).map fun (fields, s) => ((key, val) :: fields, s)
    else return ([(key, val)], s)

end

def fuelFor (s : Bytes) : Nat :=
  2 * s.length + 2

def jsonParse (text : Bytes) : Except Stop (Jval × Bytes) :=
  jParseVal (fuelFor (cstr text)) (cstr text)

end SamosaChat.Json
