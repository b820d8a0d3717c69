import SamosaChat.Http.Request
import SamosaChat.Json.Write
import SamosaChat.Lib.Scanf

set_option autoImplicit false

namespace SamosaChat.Proxy

open Utf8 Text Decimal Http

def marker : Bytes := utf8 "data: [DONE]"

def proxyChunkHasDone (data : Bytes) : Bool :=
  if data.length < marker.length then false
  else (List.range (data.length - marker.length + 1)).any fun i => (data.drop i).take marker.length == marker

inductive Errno
  | eagain
  | ewouldblock
  | etimedout
  | eproto
  | other (number : Nat)
deriving DecidableEq

-- sscanf with "HTTP/%*d.%*d %d".
def proxyHttpStatus (headers : Bytes) : Int :=
  let scanned := do
    let (_, rest) ← scanInt (← scanLiteral "HTTP/" headers)
    let (_, rest) ← scanInt (← scanLiteral "." rest)
    scanInt (rest.dropWhile isSpace)
  (scanned.map Prod.fst).getD 0

def trimEnd (text : Bytes) : Bytes :=
  (text.reverse.dropWhile isSpace).reverse

def proxyErrorDetail (head : Bytes) (cap : Nat) : Bytes :=
  match Text.find crlf2 (cstr head) with
  | none => []
  | some end_ =>
    let body := ((cstr head).drop (end_ + 4)).dropWhile isSpace
    trimEnd ((body.take (cap - 1)).map fun c => if c = 0x0d ∨ c = 0x0a ∨ c = 0x09 then 0x20 else c)

def proxyStreamError (message code : Bytes) : Option Bytes := do
  let event ← Json.textJsonString
    (utf8 "data: \x7b\"choices\":[\x7b\"index\":0,\"delta\":\x7b\"content\":\"\"\x7d,\"finish_reason\":\"error\"\x7d],\"error\":\x7b\"message\":")
    message
  let event ← Json.textJsonString (event ++ utf8 ",\"code\":") code
  some (event ++ utf8 "\x7d\x7d\n\ndata: [DONE]\n\n")

-- What recv gives: some bytes, an interruption, an error. Behind the last one the peer has closed.
inductive Event
  | data (bytes : Bytes)
  | interrupted
  | failed (errno : Errno)

-- The world around one request. `accepts k` is the answer to the k-th send of the relay to the client, and
-- `grows size` tells whether the buffer for the head can be had in this size.
structure Env where
  available : Bool
  probed : Bool
  connected : Bool
  specialistActive : Bool
  requestSent : Bool
  streamHead : Bool
  preambleSent : Bool
  accepts : Nat → Bool
  grows : Nat → Bool
  strerror : Errno → Bytes

structure Call where
  ssePreamble : Option Bytes
  clientStreamStarted : Bool

-- `sends` is what the relay hands to samosa_send_all for the client, each with its success.
structure Relay where
  sends : List (Bytes × Bool)
  head : Bytes
  stripping : Bool
  upstreamOk : Bool
  upstreamStatus : Int
  upstreamErrno : Option Errno
  sawDone : Bool
  clientFailed : Bool
  upstreamBytes : Nat
  ok : Bool

def forward (env : Env) (data : Bytes) (relay : Relay) : Relay × Bool :=
  let taken := env.accepts relay.sends.length
  let relay := { relay with
    sawDone := relay.sawDone || proxyChunkHasDone data
    sends := relay.sends ++ [(data, taken)] }
  if taken then (relay, true) else ({ relay with ok := false, clientFailed := true }, false)

def stripHead (env : Env) (data : Bytes) (relay : Relay) : Relay × Bool :=
  if env.grows (relay.head ++ data).length = false then ({ relay with ok := false }, false)
  else
    let relay := { relay with head := relay.head ++ data }
    match Text.find crlf2 (cstr relay.head) with
    | none =>
      if relay.head.length > maxHeader then
        ({ relay with ok := false, upstreamOk := false, upstreamErrno := some .eproto }, false)
      else (relay, true)
    | some end_ =>
      let status := proxyHttpStatus (cstr relay.head)
      let relay := { relay with
        upstreamStatus := status
        upstreamOk := status == 200
        stripping := false }
      if status ≠ 200 then (relay, false)
      else if relay.head.length > end_ + 4 then forward env (relay.head.drop (end_ + 4)) relay
      else (relay, true)

def receiveOne (env : Env) (data : Bytes) (relay : Relay) : Relay × Bool :=
  let relay := { relay with upstreamBytes := relay.upstreamBytes + data.length }
  if relay.stripping then stripHead env data relay else forward env data relay

-- An error from recv. A stream that is complete already stays a success.
def recvFailed (streamed : Bool) (errno : Errno) (relay : Relay) : Relay :=
  let relay := { relay with
    upstreamErrno := some (if errno = Errno.eagain ∨ errno = Errno.ewouldblock then Errno.etimedout else errno) }
  { relay with ok := streamed && relay.sawDone }

def relayLoop (env : Env) (streamed : Bool) : List Event → Relay → Relay
  | [], relay => relay
  | .interrupted :: rest, relay => relayLoop env streamed rest relay
  | .failed errno :: _, relay => recvFailed streamed errno relay
  | .data bytes :: rest, relay =>
    match receiveOne env bytes relay with
    | (relay, true) => relayLoop env streamed rest relay
    | (relay, false) => relay

def failureMessage (env : Env) (relay : Relay) : Bytes × Bytes :=
  let detail := proxyErrorDetail relay.head 256
  if relay.upstreamStatus ≠ 0 ∧ relay.upstreamStatus ≠ 200 then
    ((utf8 "The local model rejected the researched prompt (HTTP " ++ decimalInt relay.upstreamStatus ++ utf8 ")" ++
        (if detail = [] then [] else utf8 ": ") ++ detail).take 639,
      (utf8 "backend_http_" ++ decimalInt relay.upstreamStatus).take 63)
  else
    match relay.upstreamErrno with
    | some errno =>
      ((utf8 "The local model connection failed after web research (" ++ env.strerror errno ++ utf8 ").").take 639,
        utf8 "backend_connection_failed")
    | none =>
      (utf8 "The local model closed before accepting the researched prompt.", utf8 "backend_incomplete_response")

-- The response head is already out, so a failure of the upstream is told in the stream itself.
def closeRelay (env : Env) (streamed : Bool) (relay : Relay) : Relay :=
  if streamed && (!relay.upstreamOk || relay.stripping) && !relay.clientFailed then
    let (message, code) := failureMessage env relay
    match proxyStreamError message code with
    | some event => { relay with sends := relay.sends ++ [(event, env.accepts relay.sends.length)], ok := false }
    | none => { relay with ok := false }
  else relay

def startRelay (call : Call) (ok : Bool) : Relay where
  sends := []
  head := []
  stripping := call.ssePreamble.isSome
  upstreamOk := true
  upstreamStatus := 0
  upstreamErrno := none
  sawDone := false
  clientFailed := false
  upstreamBytes := 0
  ok := ok

def started (env : Env) (call : Call) : Bool :=
  match call.ssePreamble with
  | none => env.requestSent
  | some preamble =>
    env.requestSent && (call.clientStreamStarted || env.streamHead) && (preamble == [] || env.preambleSent)

-- A stream that has begun has no status to give any more.
structure Refusal where
  status : Option Nat
  code : String
  message : String
deriving DecidableEq

def refuse (call : Call) (status : Nat) (code message : String) : Refusal where
  status := if call.clientStreamStarted then none else some status
  code := code
  message := message

def refusal (env : Env) (call : Call) : Option Refusal :=
  if env.available = false then
    some (refuse call 409 "model_required" "No model is installed or selected yet.")
  else if env.probed = false then
    some (refuse call 503 "backend_loading" "The model is still loading.")
  else if env.connected = false then
    some (refuse call 503 "backend_unavailable" "The model backend is unavailable.")
  else if env.specialistActive then
    some (refuse call 409 "multimodal_specialist_active"
      (if call.clientStreamStarted then "The on-demand visual specialist is active."
        else "The on-demand visual specialist is active. Retry when this visual turn finishes."))
  else none

def proxyRequestEx (env : Env) (call : Call) (events : List Event) : Except Refusal Relay :=
  match refusal env call with
  | some refusal => .error refusal
  | none =>
    let streamed := call.ssePreamble.isSome
    let relay := startRelay call (started env call)
    .ok (closeRelay env streamed (if started env call then relayLoop env streamed events relay else relay))

end SamosaChat.Proxy
