import SamosaChat.Json.Parse
import SamosaChat.Web.Fetch
import SamosaChat.Web.Template

set_option autoImplicit false

namespace SamosaChat.Web

open Utf8 Text Decimal Json Binary64

def webKeylessDailyDefault : Int := 100

def webSearchMaxResults : Nat := 8

def webSearchMaxDescription : Nat := 400

def webSearchResponseLimit : Nat := 2 <<< 20

-- The cast to int, to the nearest end where C leaves it open.
def toInt : Double → Int
  | .nan => 0
  | .inf negative => if negative then -2 ^ 31 else 2 ^ 31 - 1
  | .finite negative magnitude =>
    let whole : Int := magnitude.units / one
    if negative then max (-2 ^ 31) (-whole) else min (2 ^ 31 - 1) whole

def webBudgetLimit (wc : WebConfig) : Int :=
  (wc.dailyLimit.map toInt).getD webKeylessDailyDefault

def webBudgetTake (wc : WebConfig) (used : Int) : Bool :=
  wc.provider ≠ utf8 "parallel" || webBudgetLimit wc ≤ 0 || used < webBudgetLimit wc

structure WebResult where
  title : Bytes
  url : Bytes
  description : Bytes
deriving DecidableEq

inductive SearchError
  | build (error : BuildError)
  | limited (limit : Int)
  | url (error : UrlError)
  | resolve (error : ResolveError)
  | redirected (status : Int)
  | credentials (status : Int)
  | rateLimited
  | http (status : Int)
  | unreachable
  | notJson
  | noResultArray (path : Option Bytes)
  | noResults
deriving DecidableEq

def SearchError.text : SearchError → Bytes
  | .build error => error.text
  | .limited limit =>
    utf8 "That is all " ++ decimalInt limit ++ utf8 " free searches for today. They reset tomorrow, or add your own " ++
      utf8 "search key to ~/.samosa/config.json to remove the cap."
  | .url error => utf8 error.text
  | .resolve error => utf8 error.text
  | .redirected status =>
    utf8 "the search provider redirected (HTTP " ++ decimalInt status ++
      utf8 "), which is not followed for an authenticated request"
  | .credentials status =>
    utf8 "the search provider rejected the credentials in config.json (HTTP " ++ decimalInt status ++ utf8 ")"
  | .rateLimited => utf8 "the search provider is rate-limiting this key (HTTP 429)"
  | .http status => utf8 "the search provider returned HTTP " ++ decimalInt status
  | .unreachable => utf8 "the search provider could not be reached"
  | .notJson => utf8 "the search provider's response was not JSON"
  | .noResultArray path =>
    utf8 "no result array at \"" ++ path.getD (utf8 "(root)") ++ utf8 "\" in the search provider's response"
  | .noResults => utf8 "the search returned no usable results"

def dotStep (at_ : Jval) (key : Bytes) : Option Jval :=
  if key = [] ∨ key.length ≥ 128 then none
  else
    match at_ with
    | .arr kids =>
      let index := numeral key
      if index.digits = [] ∨ index.rest ≠ [] ∨ index.value < 0 then none else kids[index.value.toNat]?
    | .obj _ => jsonGet at_ key
    | _ => none

def jsonDotpath (root : Jval) (path : Bytes) : Option Jval :=
  (pieces 0x2e path).foldlM dotStep root

def mappedPath (fields : Option Jval) (name fallback : String) : Bytes :=
  match fields.bind fun fields => jsonGet fields (utf8 name) with
  | some (.str path) => path
  | _ => utf8 fallback

def webResultField (item : Jval) (fields : Option Jval) (name fallback : String) : Option Bytes :=
  match jsonDotpath item (mappedPath fields name fallback) with
  | some (.str str) => some str
  | _ => none

def joinPassages (joined : Bytes) (passage : Jval) : Bytes :=
  match passage with
  | .str str =>
    if joined.length > webSearchMaxDescription ∨ str = [] then joined
    else if joined = [] then str
    else joined ++ utf8 " … " ++ str
  | _ => joined

def webResultDescription (item : Jval) (fields : Option Jval) : Bytes :=
  match jsonDotpath item (mappedPath fields "description" "description") with
  | some (.str str) => str
  | some (.arr kids) => kids.foldl joinPassages []
  | _ => []

def webResult (fields : Option Jval) (item : Jval) : Option WebResult :=
  match item, webResultField item fields "url" "url" with
  | .obj _, some url =>
    if startsWith "http://" url || startsWith "https://" url then
      let title := (webResultField item fields "title" "title").getD []
      some { title := if title = [] then url else title, url := url
             description := (webResultDescription item fields).take webSearchMaxDescription }
    else none
  | _, _ => none

def statusError (http : Int) : SearchError :=
  if 300 ≤ http ∧ http < 400 then .redirected http
  else if http = 401 ∨ http = 403 then .credentials http
  else if http = 429 then .rateLimited
  else if http ≠ 0 then .http http
  else .unreachable

def readResults (wc : WebConfig) (answer : Answer) : Except SearchError (List WebResult) :=
  if answer.http < 200 ∨ answer.http ≥ 300 then .error (statusError answer.http)
  else
    match answer.body.map jsonParse with
    | some (.ok (root@(.obj _), _)) | some (.ok (root@(.arr _), _)) =>
      let path := webCfgStr wc (utf8 "results")
      match jsonDotpath root (path.getD []) with
      | some (.arr items) =>
        let results := (items.filterMap (webResult (webCfgField wc (utf8 "fields")))).take webSearchMaxResults
        if results = [] then .error .noResults else .ok results
      | _ => .error (.noResultArray path)
    | _ => .error .notJson

-- The configuration has been loaded by the caller; the mode in it is not looked at here.
def webSearchRun (net : Net) (wc : WebConfig) (session query : Bytes) (used : Int) (history : List Event) :
    Except SearchError (List WebResult) × List Event :=
  match webSearchBuild wc session query with
  | .error error => (.error (.build error), history)
  | .ok built =>
    if webBudgetTake wc used = false then (.error (.limited (webBudgetLimit wc)), history)
    else
      match urlParse built.url with
      | .error error => (.error (.url error), history)
      | .ok parsed =>
        let answer := net.getaddrinfo history parsed.host
        let history := history ++ [.resolved parsed.host answer]
        match resolvePublicHost answer with
        | .error error => (.error (.resolve error), history)
        | .ok ip =>
          let options : WebRequestOptions := ⟨built.headers, built.body, webSearchResponseLimit⟩
          let (answer, history) :=
            curlRequest net .search ⟨built.url, parsed.host, parsed.port, ip, some options⟩ history
          (readResults wc answer, history)

end SamosaChat.Web
