import SamosaChat.Lib.Decimal
import SamosaChat.Lib.Find

set_option autoImplicit false

namespace SamosaChat.Http

open Utf8 Text Decimal

def maxHeader : Nat := 2 ^ 16

def maxBody : Nat := 2 ^ 22

def maxAttachmentBody : Nat := 2 ^ 32

def pathMax : Nat := 4096

-- The chunks that recv delivers one after the other. Behind the last one the connection gives nothing more.
abbrev Wire := List Bytes

def recv (want : Nat) : Wire → Option (Bytes × Wire)
  | [] => none
  | chunk :: wire => some (chunk.take want, if chunk.length ≤ want then wire else chunk.drop want :: wire)

structure Request where
  method : Bytes
  path : Bytes
  query : Bytes
  isBackground : Bool
  range : Bytes
  uiToken : Bytes
  host : Bytes
  cookie : Bytes
  voiceTurnId : Bytes
  origin : Bytes
  attachmentMediaType : Bytes
  attachmentFilenameB64 : Bytes
deriving DecidableEq

structure Head where
  request : Request
  contentLength : Nat
deriving DecidableEq

inductive Body
  | memory (bytes : Bytes)
  | file (content : Bytes)
deriving DecidableEq

def Body.bytes : Body → Bytes
  | .memory bytes => bytes
  | .file content => content

inductive Outcome
  | rejected (errorStatus : Nat)
  | accepted (request : Request) (body : Body)
deriving DecidableEq

structure Env where
  buffer : Bool
  body : Nat → Bool
  tmpdir : Option Bytes
  mkstemp : Bool
  disk : Nat
  finish : Bool

def crlf : Bytes := utf8 "\r\n"

def crlf2 : Bytes := utf8 "\r\n\r\n"

-- A %s of sscanf with a width.
def scanWord (width : Nat) (text : Bytes) : Option (Bytes × Bytes) :=
  let text := text.dropWhile isSpace
  let word := (text.takeWhile fun c => !isSpace c).take width
  if word = [] then none else some (word, text.drop word.length)

def scanRequestLine (line : Bytes) : Option (Bytes × Bytes) :=
  (scanWord 7 line).bind fun (method, rest) => (scanWord 255 rest).map fun (path, _) => (method, path)

def mark : UInt8 := 0x3f

def splitQuery (path : Bytes) : Bytes × Bytes :=
  (path.takeWhile (· ≠ mark), ((path.dropWhile (· ≠ mark)).drop 1).take 255)

def named (name : String) (line : Bytes) : Option Bytes :=
  if ((utf8 name).map toLower).isPrefixOf (line.map toLower) then some (line.drop (utf8 name).length) else none

def skipBlanks (text : Bytes) : Bytes :=
  text.dropWhile fun c => c == 0x20 || c == 0x09

def fieldOf (cap : Nat) (text : Bytes) : Bytes :=
  (skipBlanks text).take (cap - 1)

def strtoull (text : Bytes) : Option (Nat × Bytes) :=
  let read := numeral text
  let value := digitsValue read.digits
  if read.digits = [] then none
  else if value ≥ 2 ^ 64 then some (2 ^ 64 - 1, read.rest)
  else some (if read.negative then (2 ^ 64 - value) % 2 ^ 64 else value, read.rest)

def isAttachment (request : Request) : Bool :=
  request.method == utf8 "POST" && request.path == utf8 "/v1/attachments"

def parseLength (request : Request) (value : Bytes) : Option Nat :=
  match strtoull (skipBlanks value) with
  | none => none
  | some (parsed, tail) =>
    let limit := if isAttachment request then maxAttachmentBody else maxBody
    if !(tail == [] || tail.head? == some 0x20 || tail.head? == some 0x09) || parsed > limit then none
    else some parsed

def headerLine (line : Bytes) (head : Head) : Except Nat Head :=
  let request := head.request
  match named "Content-Length:" line with
  | some value =>
    match parseLength request value with
    | none => .error 413
    | some parsed => .ok { head with contentLength := parsed }
  | none =>
  match named "X-Samosa-Priority:" line with
  | some value =>
    if (named "background" (skipBlanks value)).isSome then .ok { head with request := { request with isBackground := true } }
    else .ok head
  | none =>
  match named "Range:" line with
  | some value => .ok { head with request := { request with range := fieldOf 128 value } }
  | none =>
  match named "X-Samosa-Token:" line with
  | some value => .ok { head with request := { request with uiToken := fieldOf 80 value } }
  | none =>
  match named "Host:" line with
  | some value => .ok { head with request := { request with host := fieldOf 256 value } }
  | none =>
  match named "Cookie:" line with
  | some value => .ok { head with request := { request with cookie := fieldOf 512 value } }
  | none =>
  match named "X-Samosa-Voice-Turn:" line with
  | some value => .ok { head with request := { request with voiceTurnId := fieldOf 64 value } }
  | none =>
  match named "Origin:" line with
  | some value => .ok { head with request := { request with origin := fieldOf 256 value } }
  | none =>
  match named "X-Samosa-Media-Type:" line with
  | some value => .ok { head with request := { request with attachmentMediaType := fieldOf 128 value } }
  | none =>
  match named "X-Samosa-Filename-B64:" line with
  | some value => .ok { head with request := { request with attachmentFilenameB64 := fieldOf 600 value } }
  | none =>
  match named "Transfer-Encoding:" line with
  | some value => if (find (utf8 "chunked") (value.map toLower)).isSome then .error 400 else .ok head
  | none => .ok head

def headerLines (buffer : Bytes) (headerBytes : Nat) : Nat → Nat → Head → Except Nat Head
  | 0, _, head => .ok head
  | fuel + 1, cursor, head =>
    if cursor < headerBytes - 2 then
      match find crlf (cstr (buffer.drop cursor)) with
      | none => .ok head
      | some next =>
        match headerLine ((buffer.drop cursor).take next) head with
        | .error status => .error status
        | .ok head => headerLines buffer headerBytes fuel (cursor + next + 2) head
    else .ok head

def emptyRequest (method path query : Bytes) : Request where
  method := method
  path := path
  query := query
  isBackground := false
  range := []
  uiToken := []
  host := []
  cookie := []
  voiceTurnId := []
  origin := []
  attachmentMediaType := []
  attachmentFilenameB64 := []

def parseHead (buffer : Bytes) (headerBytes : Nat) : Except Nat Head :=
  match find crlf (cstr buffer) with
  | none => .error 400
  | some lineEnd =>
    match scanRequestLine (buffer.take lineEnd) with
    | none => .error 400
    | some (method, path) =>
      let (path, query) := splitQuery path
      headerLines buffer headerBytes headerBytes (lineEnd + 2)
        { request := emptyRequest method path query, contentLength := 0 }

def readHead : Nat → Bytes → Wire → Except Nat (Bytes × Nat × Wire)
  | 0, _, _ => .error 413
  | fuel + 1, buffer, wire =>
    if buffer.length < maxHeader then
      match recv (maxHeader - buffer.length) wire with
      | none => .error 400
      | some (got, wire) =>
        match find crlf2 (cstr (buffer ++ got)) with
        | some end_ => .ok (buffer ++ got, end_ + 4, wire)
        | none => readHead fuel (buffer ++ got) wire
    else .error 413

def receive (most room contentLength : Nat) : Nat → Bytes → Wire → Option Bytes
  | 0, body, _ => some body
  | fuel + 1, body, wire =>
    if body.length < contentLength then
      match recv (min (contentLength - body.length) most) wire with
      | none => none
      | some (got, wire) =>
        if body.length + got.length ≤ room then receive most room contentLength fuel (body ++ got) wire else none
    else some body

def streamAttachment (head : Head) : Bool :=
  head.contentLength > maxBody && isAttachment head.request

def uploadName (tmpdir : Option Bytes) : Bytes :=
  let root :=
    match tmpdir with
    | some (c :: rest) => if c = 0x2f then c :: rest else utf8 "/tmp"
    | _ => utf8 "/tmp"
  root ++ utf8 "/samosa-upload-XXXXXX"

def readUpload (env : Env) (head : Head) (present : Bytes) (wire : Wire) : Outcome :=
  if (uploadName env.tmpdir).length ≥ pathMax then .rejected 500
  else if env.mkstemp = false then .rejected 500
  else if env.disk < present.length then .rejected 400
  else
    match receive 65536 env.disk head.contentLength (head.contentLength - present.length) present wire with
    | none => .rejected 400
    | some content => if env.finish then .accepted head.request (.file content) else .rejected 400

def readMemory (env : Env) (head : Head) (present : Bytes) (wire : Wire) : Outcome :=
  if env.body head.contentLength = false then .rejected 500
  else
    match receive head.contentLength head.contentLength head.contentLength (head.contentLength - present.length)
        present wire with
    | none => .rejected 400
    | some body => .accepted head.request (.memory body)

def readBody (env : Env) (head : Head) (left : Bytes) (wire : Wire) : Outcome :=
  let present := left.take head.contentLength
  if streamAttachment head then readUpload env head present wire else readMemory env head present wire

def samosaHttpReadRequest (env : Env) (wire : Wire) : Outcome :=
  if env.buffer = false then .rejected 400
  else
    match readHead (maxHeader + 1) [] wire with
    | .error status => .rejected status
    | .ok (buffer, headerBytes, wire) =>
      match parseHead buffer headerBytes with
      | .error status => .rejected status
      | .ok head => readBody env head (buffer.drop headerBytes) wire

end SamosaChat.Http
