import SamosaChat.Web.Address
import SamosaChat.Web.Robots
import SamosaChat.Web.Url

set_option autoImplicit false

namespace SamosaChat.Web

open Utf8 Text Decimal

def publicFetchMaxHops : Nat := 6

def maxPublicFetchBytes : Nat := 5 <<< 20

structure WebRequestOptions where
  headers : Bytes
  body : Option Bytes
  maxBytes : Nat
deriving DecidableEq

structure Request where
  url : Bytes
  host : Bytes
  port : Int
  ip : Bytes
  options : Option WebRequestOptions
deriving DecidableEq

-- Who sends: fetch_public with and without robots.txt enforced, or web_search_run.
inductive Sender
  | page
  | robots
  | search
deriving DecidableEq

inductive Event
  | began (sender : Sender) (offline : Bool)
  | resolved (host : Bytes) (answer : Option (List SockAddr))
  | sent (sender : Sender) (request : Request)
deriving DecidableEq

structure Answer where
  http : Int
  headers : Option Bytes
  body : Option Bytes

structure StubPage where
  isHtml : Bool
  data : Option Bytes

structure StubDir where
  page : Bytes → Option StubPage
  robots : Option Bytes

structure Net where
  offline : List Event → Bool
  getaddrinfo : List Event → Bytes → Option (List SockAddr)
  transport : List Event → Request → Answer
  stub : Option StubDir

inductive FetchError
  | offline
  | url (error : UrlError)
  | robots
  | stubUnreadable
  | noStub
  | resolve (error : ResolveError)
  | http (status : Int)
  | contentType (ctype : Bytes)
  | tooManyRedirects
deriving DecidableEq

def FetchError.text : FetchError → Bytes
  | .offline => utf8 "Samosa is in offline mode, so no network request was made"
  | .url error => utf8 error.text
  | .robots => utf8 "robots.txt disallows this URL"
  | .stubUnreadable => utf8 "stub page unreadable"
  | .noStub => utf8 "fetch failed (no stub)"
  | .resolve error => utf8 error.text
  | .http status => utf8 "fetch failed with HTTP " ++ decimalInt status
  | .contentType ctype => utf8 "unsupported content type: " ++ if ctype = [] then utf8 "unknown" else ctype
  | .tooManyRedirects => utf8 "too many redirects"

structure Fetched where
  finalUrl : Bytes
  contentType : Bytes
  body : Bytes
deriving DecidableEq

def headerValue (headers : Bytes) (name : String) (cap : Nat) : Bytes :=
  (lines headers).foldl (fun out header =>
    if startsWith name header ∧ header[name.length]? = some 0x3a then
      (trimEnd (fun c => c == 0x0d || c == 0x20 || c == 0x09) (skipBlanks (header.drop (name.length + 1)))).take (cap - 1)
    else out) []

def contentTypeAllowed (ctype : Bytes) : Bool :=
  (["text/html", "text/plain", "application/json", "text/xml", "application/xml", "application/rss+xml"].map utf8).contains
    ctype

def plainType (ctype : Bytes) : Bytes :=
  ((ctype.takeWhile (· ≠ 0x3b)).map toLower).takeWhile (· ≠ 0x20)

def redirects (http : Int) : Bool :=
  http = 301 || http = 302 || http = 303 || http = 307 || http = 308

def headerLineMax : Nat := 1024

def curlRequest (net : Net) (sender : Sender) (request : Request) (history : List Event) : Answer × List Event :=
  if ((request.options.map fun options => lines options.headers).getD []).any fun line => line.length ≥ headerLineMax then
    ({ http := 0, headers := none, body := none }, history)
  else (net.transport history request, history ++ [.sent sender request])

abbrev Probe := Bytes → List Event → Bool × List Event

def fetchHops (net : Net) (sender : Sender) (robotsAllowed : Probe) :
    Nat → Bytes → List Event → Except FetchError Fetched × List Event
  | 0, _, history => (.error .tooManyRedirects, history)
  | hops + 1, current, history =>
    match urlParse current with
    | .error error => (.error (.url error), history)
    | .ok parsed =>
      let (allowed, history) := robotsAllowed current history
      if allowed = false then (.error .robots, history)
      else
        match net.stub with
        | some stub =>
          match stub.page current with
          | some page =>
            match page.data with
            | none => (.error .stubUnreadable, history)
            | some data => (.ok ⟨current, utf8 (if page.isHtml then "text/html" else "text/plain"), data⟩, history)
          | none => (.error .noStub, history)
        | none =>
          let answer := net.getaddrinfo history parsed.host
          let history := history ++ [.resolved parsed.host answer]
          match resolvePublicHost answer with
          | .error error => (.error (.resolve error), history)
          | .ok ip =>
            let (answer, history) := curlRequest net sender ⟨current, parsed.host, parsed.port, ip, none⟩ history
            let location := headerValue (answer.headers.getD []) "location" 2048
            let ctype := plainType (headerValue (answer.headers.getD []) "content-type" 128)
            if redirects answer.http ∧ location ≠ [] then
              fetchHops net sender robotsAllowed hops (urlJoin current location) history
            else if answer.http < 200 ∨ answer.http ≥ 300 then (.error (.http answer.http), history)
            else if contentTypeAllowed ctype = false then (.error (.contentType ctype), history)
            else (.ok ⟨current, if ctype = [] then utf8 "text/plain" else ctype, answer.body.getD []⟩, history)

def fetchPublicWith (net : Net) (sender : Sender) (robotsAllowed : Probe) (url : Bytes) (history : List Event) :
    Except FetchError Fetched × List Event :=
  let offline := net.offline history
  let history := history ++ [.began sender offline]
  if offline then (.error .offline, history) else fetchHops net sender robotsAllowed publicFetchMaxHops url history

def everything : Probe := fun _ history => (true, history)

def robotsAllowed (net : Net) : Probe := fun url history =>
  match urlParse url with
  | .error _ => (false, history)
  | .ok parsed =>
    match net.stub with
    | some stub =>
      match stub.robots with
      | none => (true, history)
      | some robots => (robotsPathAllowed robots "samosachat" parsed.path, history)
    | none =>
      match fetchPublicWith net .robots everything ((origin parsed ++ utf8 "/robots.txt").take 511) history with
      | (.error _, history) => (true, history)
      | (.ok fetched, history) =>
        if fetched.contentType = utf8 "text/plain" ∨ fetched.contentType = utf8 "text/html" then
          (robotsPathAllowed fetched.body "samosachat" parsed.path, history)
        else (true, history)

def fetchPublic (net : Net) (enforceRobots : Bool) (url : Bytes) (history : List Event) :
    Except FetchError Fetched × List Event :=
  if enforceRobots then fetchPublicWith net .page (robotsAllowed net) url history
  else fetchPublicWith net .robots everything url history

end SamosaChat.Web
