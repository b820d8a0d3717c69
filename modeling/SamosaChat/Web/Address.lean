import SamosaChat.Lib.Decimal

set_option autoImplicit false

namespace SamosaChat.Web

open Utf8 Text Decimal

inductive SockAddr
  | inet (a b c d : UInt8)
  | inet6 (bytes : Vector UInt8 16)
  | other
deriving DecidableEq

def inet6Strlen : Nat := 46

def dotted (a b c d : UInt8) : Bytes :=
  decimal a.toNat ++ 0x2e :: decimal b.toNat ++ 0x2e :: decimal c.toNat ++ 0x2e :: decimal d.toNat

def hexText (n : Nat) : Bytes :=
  (Nat.toDigits 16 n).map fun c => .ofNat c.toNat

def groups (bytes : Vector UInt8 16) : List Nat :=
  (List.range 8).map fun i => (bytes.toList.getD (2 * i) 0).toNat * 256 + (bytes.toList.getD (2 * i + 1) 0).toNat

def zeroRun (words : List Nat) (i : Nat) : Nat :=
  ((words.drop i).takeWhile (· = 0)).length

def bestRun (words : List Nat) : Option (Nat × Nat) :=
  let longest := ((List.range 8).map (zeroRun words)).foldl max 0
  if longest < 2 then none else ((List.range 8).find? fun i => zeroRun words i = longest).map fun i => (i, longest)

def colons (texts : List Bytes) : Bytes :=
  (texts.intersperse (utf8 ":")).flatten

def inetNtop6 (bytes : Vector UInt8 16) : Bytes :=
  let words := groups bytes
  let last := dotted (bytes.toList.getD 12 0) (bytes.toList.getD 13 0) (bytes.toList.getD 14 0) (bytes.toList.getD 15 0)
  match bestRun words with
  | none => colons (words.map hexText)
  | some (base, len) =>
    -- An IPv4 address that is embedded is written as one.
    if base = 0 ∧ len = 6 then utf8 "::" ++ last
    else if base = 0 ∧ len = 5 ∧ words.getD 5 0 = 0xffff then utf8 "::ffff:" ++ last
    else
      colons ((words.take base).map hexText) ++ utf8 "::" ++ colons ((words.drop (base + len)).map hexText)

-- inet_ntop into a buffer of the given size.
def inetNtop (size : Nat) (address : SockAddr) : Option Bytes :=
  let text := match address with
    | .inet a b c d => some (dotted a b c d)
    | .inet6 bytes => some (inetNtop6 bytes)
    | .other => none
  text.filter fun text => decide (text.length < size)

def octet (text : Bytes) : Option UInt8 :=
  if text = [] || !text.all isDigit || (text.head? == some 0x30 && text.length > 1) || digitsValue text > 255 then none
  else some (.ofNat (digitsValue text))

def inetPton4 (text : Bytes) : Option (UInt8 × UInt8 × UInt8 × UInt8) :=
  match (text.splitOn 0x2e).mapM octet with
  | some [a, b, c, d] => some (a, b, c, d)
  | _ => none

def hexValue (c : UInt8) : Option Nat :=
  if isDigit c then some (c.toNat - 0x30)
  else if 0x61 ≤ toLower c && toLower c ≤ 0x66 then some ((toLower c).toNat - 0x57)
  else none

structure Pton where
  out : Bytes
  gap : Option Nat
  value : Nat
  digits : Nat
  token : Bytes

def Pton.push (state : Pton) : Option Pton :=
  if state.out.length + 2 > 16 then none
  else
    some { state with out := state.out ++ [.ofNat (state.value / 256), .ofNat (state.value % 256)], value := 0, digits := 0 }

-- What is behind the loop: the last group, and the zeros that the gap stands for.
def Pton.finish (state : Pton) : Option Bytes := do
  let state ← if state.digits > 0 then state.push else some state
  match state.gap with
  | none => if state.out.length = 16 then some state.out else none
  | some gap =>
    if state.out.length = 16 then none
    else some (state.out.take gap ++ List.replicate (16 - state.out.length) 0 ++ state.out.drop gap)

def ptonLoop : Bytes → Pton → Option Bytes
  | [], state => state.finish
  | c :: rest, state =>
    match hexValue c with
    | some digit =>
      if state.digits ≥ 4 then none
      else ptonLoop rest { state with value := state.value * 16 + digit, digits := state.digits + 1 }
    | none =>
      if c = 0x3a then
        if state.digits = 0 then
          if state.gap.isSome then none
          else ptonLoop rest { state with gap := some state.out.length, token := rest }
        else if rest = [] then none
        else state.push.bind fun state => ptonLoop rest { state with token := rest }
      else if c = 0x2e ∧ state.out.length + 4 ≤ 16 then
        match inetPton4 state.token with
        | none => none
        | some (a, b, c, d) => { state with out := state.out ++ [a, b, c, d], value := 0, digits := 0 }.finish
      else none

def inetPton6 (text : Bytes) : Option Bytes :=
  let start := if text.head? = some 0x3a then (if (text.drop 1).head? = some 0x3a then some (text.drop 1) else none) else some text
  start.bind fun text => ptonLoop text { out := [], gap := none, value := 0, digits := 0, token := text }

def ipv4Blocked (o1 o2 o3 : UInt8) : Bool :=
  o1 == 0 || o1 == 10 || o1 == 127 || (o1 == 100 && o2 &&& 0xc0 == 64) || (o1 == 169 && o2 == 254) ||
    (o1 == 172 && o2 &&& 0xf0 == 16) || (o1 == 192 && o2 == 0 && o3 == 0) || (o1 == 192 && o2 == 168) ||
    (o1 == 198 && o2 &&& 0xfe == 18) || o1 ≥ 224

def ipv6Blocked (b : Bytes) : Bool :=
  let at_ (i : Nat) := b.getD i 0
  ((b.take 15).all (· == 0) && (at_ 15 == 0 || at_ 15 == 1)) || at_ 0 &&& 0xfe == 0xfc ||
    (at_ 0 == 0xfe && at_ 1 &&& 0xc0 == 0x80) || (at_ 0 == 0x20 && at_ 1 == 0x02) ||
    ((b.take 10).all (· == 0) && at_ 10 == 0xff && at_ 11 == 0xff) ||
    (at_ 0 == 0x00 && at_ 1 == 0x64 && at_ 2 == 0xff && at_ 3 == 0x9b && ((b.drop 4).take 8).all (· == 0))

def ipBlocked (ip : Bytes) : Bool :=
  match inetPton4 ip with
  | some (o1, o2, o3, _) => ipv4Blocked o1 o2 o3
  | none =>
    match inetPton6 ip with
    | some b => ipv6Blocked b
    | none => true

inductive ResolveError
  | unresolved
  | blocked
  | noUsable
deriving DecidableEq

def ResolveError.text : ResolveError → String
  | .unresolved => "could not resolve host"
  | .blocked => "blocked non-public address"
  | .noUsable => "host has no usable address"

def usable (addresses : List SockAddr) : List Bytes :=
  addresses.filterMap (inetNtop inet6Strlen)

def firstPublic (first : Bytes) : List SockAddr → Except ResolveError Bytes
  | [] => if first = [] then .error .noUsable else .ok first
  | address :: rest =>
    match inetNtop inet6Strlen address with
    | none => firstPublic first rest
    | some ip => if ipBlocked ip then .error .blocked else firstPublic (if first = [] then ip else first) rest

def resolvePublicHost (answer : Option (List SockAddr)) : Except ResolveError Bytes :=
  match answer with
  | none => .error .unresolved
  | some [] => .error .unresolved
  | some addresses => firstPublic [] addresses

structure PublicChoice (addresses : List SockAddr) (ip : Bytes) : Prop where
  taken : ip ∈ usable addresses
  all : ∀ other ∈ usable addresses, ipBlocked other = false

theorem first_public {addresses : List SockAddr} {first ip : Bytes} (found : firstPublic first addresses = .ok ip) :
    (ip = first ∨ ip ∈ usable addresses) ∧ ip ≠ [] ∧ ∀ other ∈ usable addresses, ipBlocked other = false := by
  induction addresses generalizing first with
  | nil =>
    rw [firstPublic] at found
    split_ifs at found with empty
    cases found
    exact ⟨.inl rfl, empty, fun other inside => nomatch inside⟩
  | cons address rest ih =>
    rw [firstPublic] at found
    cases written : inetNtop inet6Strlen address with
    | none =>
      rw [written] at found
      rw [usable, List.filterMap_cons_none written]
      exact ih found
    | some text =>
      rw [written] at found
      simp only at found
      obtain ⟨blocked, found⟩ := past_guard found nofun
      rw [usable, List.filterMap_cons_some written]
      obtain ⟨taken, some_, all⟩ := ih found
      refine ⟨?_, some_, List.forall_mem_cons.mpr ⟨by simpa using blocked, all⟩⟩
      rcases taken with same | later
      · by_cases empty : first = []
        · rw [if_pos empty] at same
          exact .inr (same ▸ List.mem_cons_self)
        · rw [if_neg empty] at same
          exact .inl same
      · exact .inr (List.mem_cons_of_mem _ later)

theorem resolved_public {answer : Option (List SockAddr)} {ip : Bytes} (found : resolvePublicHost answer = .ok ip) :
    ∃ addresses, answer = some addresses ∧ PublicChoice addresses ip := by
  cases answer with
  | none => cases found
  | some addresses =>
    cases addresses with
    | nil => cases found
    | cons address rest =>
      obtain ⟨taken, some_, all⟩ := first_public found
      exact ⟨_, rfl, taken.resolve_left some_, all⟩

example : ipBlocked (utf8 "169.254.169.254") = true ∧ ipBlocked (utf8 "8.8.8.8") = false ∧
    ipBlocked (utf8 "::ffff:10.0.0.1") = true ∧ ipBlocked (utf8 "2606:4700::1111") = false := by decide +kernel

end SamosaChat.Web
