import SamosaChat.Json.Write
import SamosaChat.Web.Url

set_option autoImplicit false

namespace SamosaChat.Web

open Utf8 Text Json Binary64

structure WebConfig where
  provider : Bytes
  user : Option Jval
  preset : Option Jval
  dailyLimit : Option Double
  offline : Bool

def webCfgField (wc : WebConfig) (key : Bytes) : Option Jval :=
  match wc.user.bind fun user => jsonGet user key with
  | some v => some v
  | none => wc.preset.bind fun preset => jsonGet preset key

def webCfgStr (wc : WebConfig) (key : Bytes) : Option Bytes :=
  match webCfgField wc key with
  | some (.str str) => some str
  | _ => none

inductive BuildError
  | noProvider
  | noUrl (provider : Bytes)
  | nameTooLong
  | missing (provider key : Bytes)
  | badUrl (key : Bytes) (error : UrlError)
  | headerControl
  | headerName
deriving DecidableEq

def BuildError.text : BuildError → Bytes
  | .noProvider => utf8 "no search provider is configured"
  | .noUrl provider => utf8 "search provider \"" ++ provider ++ utf8 "\" is not a known preset and has no \"url\""
  | .nameTooLong => utf8 "placeholder name is too long"
  | .missing provider key =>
    utf8 "search provider \"" ++ provider ++ utf8 "\" needs a \"" ++ key ++ utf8 "\" value in config.json"
  | .badUrl key error =>
    utf8 "the \"" ++ key ++ utf8 "\" value in config.json is not a usable URL: " ++ utf8 error.text
  | .headerControl => utf8 "a configured header value contains a control character"
  | .headerName => utf8 "a configured header name is not a valid HTTP header name"

def openBrace : UInt8 := 0x7b

def closeBrace : UInt8 := 0x7d

def isIdent (c : UInt8) : Bool :=
  isAlnum c || c == 0x5f

def placeholder (rest : Bytes) : Option Bytes :=
  let key := rest.takeWhile isIdent
  if key = [] ∨ rest[key.length]? ≠ some closeBrace then none else some key

def expand {ε : Type} (insert : Bytes → Except ε Bytes) : Nat → Bytes → Except ε Bytes
  | _, [] => .ok []
  | skip + 1, _ :: rest => expand insert skip rest
  | 0, c :: rest =>
    if c = openBrace then
      match placeholder rest with
      | some key => do
        let value ← insert key
        return value ++ (← expand insert (key.length + 1) rest)
      | none => (expand insert 0 rest).map (c :: ·)
    else (expand insert 0 rest).map (c :: ·)

inductive SubMode
  | url
  | header
  | json
deriving DecidableEq

def hexUpper (n : Nat) : UInt8 :=
  (utf8 "0123456789ABCDEF").getD n 0

def isUnreserved (c : UInt8) : Bool :=
  isAlnum c || c == 0x2d || c == 0x5f || c == 0x2e || c == 0x7e

def urlEncode (value : Bytes) : Bytes :=
  value.flatMap fun c => if isUnreserved c then [c] else [0x25, hexUpper (c.toNat / 16), hexUpper (c.toNat % 16)]

def isUrlKey (key : Bytes) : Bool :=
  key == utf8 "base_url" || (key.length > 4 && key.drop (key.length - 4) == utf8 "_url")

def trimSlashes (value : Bytes) : Bytes :=
  (value.reverse.dropWhile (· = 0x2f)).reverse

def isControl (c : UInt8) : Bool :=
  c < 0x20 || c == 0x7f

def keyMax : Nat := 64

def placeholderValue (wc : WebConfig) (session query key : Bytes) : Option Bytes :=
  if key = utf8 "query" then some query
  else if key = utf8 "session_id" ∧ (webCfgField wc (utf8 "session_id")).isNone then some session
  else webCfgStr wc key

def inMode (mode : SubMode) (key value : Bytes) : Except BuildError Bytes :=
  match mode with
  | .url =>
    if isUrlKey key then
      match urlParse value with
      | .error error => .error (.badUrl key error)
      | .ok _ => .ok (trimSlashes value)
    else .ok (urlEncode value)
  | .json => .ok ((((textJsonString [] value).getD []).drop 1).dropLast)
  | .header => if value.any isControl then .error .headerControl else .ok value

def insertValue (mode : SubMode) (wc : WebConfig) (session query key : Bytes) : Except BuildError Bytes :=
  if key.length ≥ keyMax then .error .nameTooLong
  else
    match placeholderValue wc session query key with
    | none => .error (.missing wc.provider key)
    | some value => inMode mode key value

def webSubstitute (mode : SubMode) (wc : WebConfig) (session query tmpl : Bytes) : Except BuildError Bytes :=
  expand (insertValue mode wc session query) 0 tmpl

structure Built where
  url : Bytes
  headers : Bytes
  body : Option Bytes
deriving DecidableEq

def isHeaderNameByte (c : UInt8) : Bool :=
  0x21 ≤ c && c ≠ 0x3a && c ≤ 0x7e

def headersText (wc : WebConfig) (session query : Bytes) : List (Bytes × Jval) → Except BuildError Bytes
  | [] => .ok []
  | (name, .str tmpl) :: fields =>
    if name.all isHeaderNameByte then do
      let value ← webSubstitute .header wc session query tmpl
      return name ++ utf8 ": " ++ value ++ utf8 "\n" ++ (← headersText wc session query fields)
    else .error .headerName
  | _ :: fields => headersText wc session query fields

def headerFields (wc : WebConfig) : List (Bytes × Jval) :=
  match webCfgField wc (utf8 "headers") with
  | some (.obj fields) => fields
  | _ => []

def webSearchBuild (wc : WebConfig) (session query : Bytes) : Except BuildError Built :=
  if wc.provider = [] then .error .noProvider
  else
    match webCfgStr wc (utf8 "url") with
    | none => .error (.noUrl wc.provider)
    | some urlTmpl => do
      let url ← webSubstitute .url wc session query urlTmpl
      let headers ← headersText wc session query (headerFields wc)
      match webCfgField wc (utf8 "body") with
      | none => return ⟨url, headers, none⟩
      | some tmpl =>
        let body ← webSubstitute .json wc session query ((textJsonValue [] tmpl).getD [])
        return ⟨url, headers, some body⟩

end SamosaChat.Web
