import SamosaChat.Lib.Scanf

set_option autoImplicit false

namespace SamosaChat.Web

open Utf8 Text Decimal

structure ParsedUrl where
  https : Bool
  host : Bytes
  port : Int
  path : Bytes
deriving DecidableEq

def ParsedUrl.scheme (parsed : ParsedUrl) : Bytes :=
  utf8 (if parsed.https then "https" else "http")

inductive UrlError
  | scheme
  | hostTooLong
  | credentials
  | malformedIpv6
  | missingHost
  | port
deriving DecidableEq

def UrlError.text : UrlError → String
  | .scheme => "only public http:// and https:// URLs are allowed"
  | .hostTooLong => "host is too long"
  | .credentials => "credentials in URLs are not allowed"
  | .malformedIpv6 => "malformed IPv6 host"
  | .missingHost => "missing host"
  | .port => "non-standard URL ports are blocked"

def authMax : Nat := 512

def hostMax : Nat := 256

def pathMax : Nat := 2048

def splitScheme (url : Bytes) : Option (Bool × Bytes) :=
  let s := skipBlanks url
  match Text.find (utf8 "://") s with
  | none => none
  | some sep =>
    let word := (s.take sep).map toLower
    if word = utf8 "http" then some (false, s.drop (sep + 3))
    else if word = utf8 "https" then some (true, s.drop (sep + 3))
    else none

def authorityOf (rest : Bytes) : Bytes :=
  rest.takeWhile fun c => c ≠ 0x2f && c ≠ 0x3f && c ≠ 0x23

def splitHost (auth : Bytes) (standard : Int) : Except UrlError (Bytes × Int) :=
  if auth.head? = some 0x5b then
    if 0x5d ∉ auth then .error .malformedIpv6
    else
      let inner := auth.takeWhile (· ≠ 0x5d)
      let behind := auth.drop (inner.length + 1)
      if (inner.drop 1).length ≥ hostMax then .error .hostTooLong
      else .ok (inner.drop 1, if behind.head? = some 0x3a then atoi (behind.drop 1) else standard)
  else
    let host := if 0x3a ∈ auth then beforeLast 0x3a auth else auth
    let port := if 0x3a ∈ auth then atoi (afterLast 0x3a auth) else standard
    if host.length ≥ hostMax then .error .hostTooLong else .ok (host, port)

def urlParse (url : Bytes) : Except UrlError ParsedUrl :=
  match splitScheme url with
  | none => .error .scheme
  | some (https, rest) =>
    let auth := authorityOf rest
    let pathStart := rest.drop auth.length
    if auth.length ≥ authMax then .error .hostTooLong
    else if 0x40 ∈ auth then .error .credentials
    else
      match splitHost auth (if https then 443 else 80) with
      | .error error => .error error
      | .ok (host, port) =>
        if host = [] then .error .missingHost
        else if port ≠ 80 ∧ port ≠ 443 then .error .port
        else
          .ok { https := https, host := host, port := port
                path := if pathStart = [] then utf8 "/" else pathStart.take (pathMax - 1) }

def standardPort (parsed : ParsedUrl) : Bool :=
  (!parsed.https && parsed.port == 80) || (parsed.https && parsed.port == 443)

def origin (parsed : ParsedUrl) : Bytes :=
  parsed.scheme ++ utf8 "://" ++ parsed.host ++
    if standardPort parsed then [] else 0x3a :: decimalInt parsed.port

def urlJoin (base loc : Bytes) : Bytes :=
  if startsWith "http://" loc || startsWith "https://" loc then loc
  else
    match urlParse base with
    | .error _ => loc
    | .ok parsed =>
      let dir := if 0x2f ∈ parsed.path then beforeLast 0x2f parsed.path ++ [0x2f] else utf8 "/"
      (if loc.head? = some 0x2f then (origin parsed).take 599 ++ loc else (origin parsed).take 599 ++ dir ++ loc).take 4095

def Uncredentialed (url : Bytes) : Prop :=
  ∃ https rest, splitScheme url = some (https, rest) ∧ 0x40 ∉ authorityOf rest

theorem parse_read {url : Bytes} {parsed : ParsedUrl} (accepted : urlParse url = .ok parsed) :
    ∃ https rest host port, splitScheme url = some (https, rest) ∧ 0x40 ∉ authorityOf rest ∧
      splitHost (authorityOf rest) (if https then 443 else 80) = .ok (host, port) ∧ host ≠ [] ∧ (port = 80 ∨ port = 443) ∧
      parsed = { https := https, host := host, port := port
                 path := if rest.drop (authorityOf rest).length = [] then utf8 "/"
                   else (rest.drop (authorityOf rest).length).take (pathMax - 1) } := by
  unfold urlParse at accepted
  cases scheme : splitScheme url with
  | none =>
    rw [scheme] at accepted
    cases accepted
  | some split =>
    obtain ⟨https, rest⟩ := split
    rw [scheme] at accepted
    simp only at accepted
    by_cases long : (authorityOf rest).length ≥ authMax
    · rw [if_pos long] at accepted
      cases accepted
    by_cases credentials : 0x40 ∈ authorityOf rest
    · rw [if_neg long, if_pos credentials] at accepted
      cases accepted
    rw [if_neg long, if_neg credentials] at accepted
    cases host : splitHost (authorityOf rest) (if https = true then 443 else 80) with
    | error error =>
      rw [host] at accepted
      cases accepted
    | ok found =>
      obtain ⟨name, port⟩ := found
      rw [host] at accepted
      simp only at accepted
      by_cases missing : name = []
      · rw [if_pos missing] at accepted
        cases accepted
      by_cases other : port ≠ 80 ∧ port ≠ 443
      · rw [if_neg missing, if_pos other] at accepted
        cases accepted
      rw [if_neg missing, if_neg other] at accepted
      cases accepted
      exact ⟨https, rest, name, port, rfl, credentials, host, missing, by omega, rfl⟩

theorem url_parsed {url : Bytes} {parsed : ParsedUrl} (accepted : urlParse url = .ok parsed) :
    (parsed.port = 80 ∨ parsed.port = 443) ∧ parsed.host ≠ [] ∧ Uncredentialed url := by
  obtain ⟨https, rest, _, _, scheme, credentials, _, named, standard, rfl⟩ := parse_read accepted
  exact ⟨standard, named, https, rest, scheme, credentials⟩

end SamosaChat.Web
