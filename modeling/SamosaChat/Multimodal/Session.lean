import SamosaChat.Lib.Text

set_option autoImplicit false

namespace SamosaChat.Multimodal

open Utf8 Text

inductive Protocol
  | jsonLine
  | jsonFrameV1
deriving DecidableEq

structure Session where
  protocol : Protocol
  maxFrameBytes : Nat

def newline : UInt8 := 10

def htonl (n : Nat) : Bytes :=
  [.ofNat (n / 16777216), .ofNat (n / 65536), .ofNat (n / 256), .ofNat n]

def ntohl : Bytes → Nat
  | [a, b, c, d] => ((a.toNat * 256 + b.toNat) * 256 + c.toNat) * 256 + d.toNat
  | _ => 0

def mmWriteDeadline (bytes : Bytes) (room : Nat) : Bool × Bytes :=
  (decide (bytes.length ≤ room), bytes.take room)

def mmWriteBoth (first second : Bytes) (room : Nat) : Bool × Bytes :=
  let (done, written) := mmWriteDeadline first room
  if done then
    let (done, more) := mmWriteDeadline second (room - first.length)
    (done, written ++ more)
  else (false, written)

def mmSend (session : Session) (json : Bytes) (room : Nat) : Bool × Bytes :=
  match session.protocol with
  | .jsonFrameV1 =>
    if json.length = 0 ∨ json.length > 4294967295 ∨ json.length > session.maxFrameBytes then (false, [])
    else mmWriteBoth (htonl json.length) json room
  | .jsonLine =>
    if json.length = 0 ∨ json.length + 1 > session.maxFrameBytes ∨ newline ∈ json then (false, [])
    else mmWriteBoth json [newline] room

def mmReadExactDeadline (pipe : Bytes) (window length : Nat) : Option Bytes × Bytes :=
  if length ≤ window ∧ length ≤ pipe.length then (some (pipe.take length), pipe.drop length)
  else (none, pipe.drop window)

def readLine (cap : Nat) (result : Bytes) : Bytes → Nat → Option Bytes × Bytes
  | [], _ => (none, [])
  | c :: pipe, window =>
    if cap ≤ result.length then (none, c :: pipe)
    else
      match window with
      | 0 => (none, c :: pipe)
      | window + 1 => if c = newline then (some result, pipe) else readLine cap (result ++ [c]) pipe window

def mmReceive (session : Session) (pipe : Bytes) (window : Nat) (allocated : Bool) : Option Bytes × Bytes :=
  match session.protocol with
  | .jsonFrameV1 =>
    match mmReadExactDeadline pipe window 4 with
    | (none, rest) => (none, rest)
    | (some encoded, rest) =>
      let length := ntohl encoded
      if length = 0 ∨ length > session.maxFrameBytes ∨ allocated = false then (none, rest)
      else mmReadExactDeadline rest (window - 4) length
  | .jsonLine =>
    if allocated then readLine session.maxFrameBytes [] pipe window else (none, pipe)

def mmReplyOk (json : Bytes) : Bool :=
  (find (utf8 "\"status\":\"ok\"") json).isSome

def hello : Protocol → Bytes
  | .jsonFrameV1 => utf8 "\x7b\"command\":\"hello\",\"protocol\":\"samosa.multimodal.v1\"\x7d"
  | .jsonLine => utf8 "\x7b\"command\":\"ping\"\x7d"

-- kMaxFrame of the framed helper
def helperMaxFrame : Nat := 1048576

-- The helper's side: the next message on its standard input, once it is all there.
def helperReceive : Protocol → Bytes → Option (Bytes × Bytes)
  | .jsonFrameV1, stdin =>
    let length := ntohl (stdin.take 4)
    if stdin.length < 4 ∨ length = 0 ∨ length > helperMaxFrame ∨ stdin.length < 4 + length then none
    else some ((stdin.drop 4).take length, stdin.drop (4 + length))
  | .jsonLine, stdin =>
    if newline ∈ stdin then
      some (stdin.takeWhile (· != newline), (stdin.dropWhile (· != newline)).drop 1)
    else none

def helperSend : Protocol → Bytes → Bytes
  | .jsonFrameV1, reply =>
    if reply = [] ∨ reply.length > helperMaxFrame then [] else htonl reply.length ++ reply
  | .jsonLine, reply => reply ++ [newline]

theorem ntohl_htonl {n : Nat} (bound : n ≤ 4294967295) : ntohl (htonl n) = n := by
  simp only [htonl, ntohl, UInt8.toNat_ofNat']
  omega

theorem write_both (first second : Bytes) (room : Nat) :
    mmWriteBoth first second room = mmWriteDeadline (first ++ second) room := by
  simp only [mmWriteBoth, mmWriteDeadline, decide_eq_true_eq, List.length_append]
  split_ifs with fits
  · rw [List.take_append, List.take_of_length_le fits]
    simp only [Prod.mk.injEq, and_true, decide_eq_decide]
    omega
  · rw [List.take_append_of_le_length (by omega)]
    simp only [Prod.mk.injEq, and_true, Bool.false_eq, decide_eq_false_iff_not]
    omega

def message : Protocol → Bytes → Bytes
  | .jsonFrameV1, json => htonl json.length ++ json
  | .jsonLine, json => json ++ [newline]

structure Ended (protocol : Protocol) (json : Bytes) : Prop where
  some_ : json ≠ []
  short : protocol = .jsonFrameV1 → json.length ≤ 4294967295
  line : protocol = .jsonLine → newline ∉ json

theorem send_whole {session : Session} {json written : Bytes} {room : Nat} (sent : mmSend session json room = (true, written)) :
    written = message session.protocol json ∧ Ended session.protocol json := by
  cases protocol : session.protocol with
  | jsonFrameV1 =>
    simp only [mmSend, protocol] at sent
    split_ifs at sent with refused
    · simp at sent
    · rw [write_both] at sent
      simp only [mmWriteDeadline, Prod.mk.injEq, decide_eq_true_eq] at sent
      rw [List.take_of_length_le sent.1] at sent
      simp only [not_or, not_lt] at refused
      exact ⟨sent.2.symm, fun none_ => refused.1 (by rw [none_]; rfl), fun _ => refused.2.1, nofun⟩
  | jsonLine =>
    simp only [mmSend, protocol] at sent
    split_ifs at sent with refused
    · simp at sent
    · rw [write_both] at sent
      simp only [mmWriteDeadline, Prod.mk.injEq, decide_eq_true_eq] at sent
      rw [List.take_of_length_le sent.1] at sent
      simp only [not_or, not_lt] at refused
      exact ⟨sent.2.symm, fun none_ => refused.1 (by rw [none_]; rfl), nofun, fun _ => refused.2.2⟩

theorem take_message (header body : Bytes) {n : Nat} (length : header.length = n) :
    (header ++ body).take n = header ∧ (header ++ body).drop n = body := by
  subst length
  exact ⟨List.take_left, List.drop_left⟩

theorem htonl_length (n : Nat) : (htonl n).length = 4 := rfl

theorem line_split {line : Bytes} (inside : newline ∉ line) : (line ++ [newline]).takeWhile (· != newline) = line ∧
      ((line ++ [newline]).dropWhile (· != newline)).drop 1 = [] := by
  induction line with
  | nil => exact ⟨rfl, rfl⟩
  | cons c line ih =>
    rw [List.mem_cons, not_or] at inside
    obtain ⟨taken, dropped⟩ := ih inside.2
    have other : (c != newline) = true := by
      rw [bne_iff_ne]
      exact Ne.symm inside.1
    rw [List.cons_append, List.takeWhile_cons, List.dropWhile_cons, if_pos other, if_pos other, taken]
    exact ⟨rfl, dropped⟩

theorem helper_hears {protocol : Protocol} {json heard rest : Bytes} (ended : Ended protocol json)
    (received : helperReceive protocol (message protocol json) = some (heard, rest)) : heard = json ∧ rest = [] := by
  cases protocol with
  | jsonFrameV1 =>
    obtain ⟨header, body⟩ := take_message (htonl json.length) json (htonl_length _)
    rw [message, helperReceive, header, ntohl_htonl (ended.short rfl)] at received
    split_ifs at received with incomplete
    simp only [Option.some.injEq, Prod.mk.injEq] at received
    rw [← received.1, ← received.2, body, List.take_length]
    constructor
    · rfl
    · rw [List.drop_eq_nil_iff, List.length_append, htonl_length]
  | jsonLine =>
    obtain ⟨taken, dropped⟩ := line_split (ended.line rfl)
    rw [message, helperReceive] at received
    split_ifs at received with whole
    simp only [Option.some.injEq, Prod.mk.injEq] at received
    rw [← received.1, ← received.2]
    exact ⟨taken, dropped⟩

theorem helper_waits (protocol : Protocol) : helperReceive protocol [] = none := by
  cases protocol with
  | jsonFrameV1 => rfl
  | jsonLine => rfl

theorem read_line (cap : Nat) {line : Bytes} (inside : newline ∉ line) (result : Bytes) (window : Nat)
    {reply rest : Bytes} (read : readLine cap result (line ++ [newline]) window = (some reply, rest)) :
    reply = result ++ line ∧ rest = [] := by
  induction line generalizing result window with
  | nil =>
    cases window with
    | zero =>
      rw [List.nil_append, readLine] at read
      split_ifs at read <;> simp at read
    | succ window =>
      rw [List.nil_append, readLine, if_pos rfl] at read
      split_ifs at read with full
      · simp at read
      · simp only [Prod.mk.injEq, Option.some.injEq] at read
        rw [List.append_nil]
        exact ⟨read.1.symm, read.2.symm⟩
  | cons c line ih =>
    rw [List.mem_cons, not_or] at inside
    cases window with
    | zero =>
      rw [List.cons_append, readLine] at read
      split_ifs at read <;> simp at read
    | succ window =>
      rw [List.cons_append, readLine, if_neg (Ne.symm inside.1)] at read
      split_ifs at read with full
      · simp at read
      · obtain ⟨whole, nothing⟩ := ih inside.2 (result ++ [c]) window read
        rw [whole, List.append_assoc]
        exact ⟨rfl, nothing⟩

theorem receive_reply {session : Session} {reply received rest : Bytes} {window : Nat} {allocated : Bool}
    (line : session.protocol = .jsonLine → newline ∉ reply)
    (got : mmReceive session (helperSend session.protocol reply) window allocated = (some received, rest)) :
    received = reply ∧ rest = [] := by
  cases protocol : session.protocol with
  | jsonFrameV1 =>
    simp only [mmReceive, protocol, helperSend] at got
    split_ifs at got with unsent
    · simp [mmReadExactDeadline] at got
    · obtain ⟨header, body⟩ := take_message (htonl reply.length) reply (htonl_length _)
      have short : reply.length ≤ 4294967295 := by
        simp only [helperMaxFrame, not_or, not_lt] at unsent
        omega
      simp only [mmReadExactDeadline, header, body] at got
      split_ifs at got with whole
      · dsimp only at got
        rw [ntohl_htonl short] at got
        split_ifs at got with refused all
        · simp at got
        · simp only [Prod.mk.injEq, Option.some.injEq, List.take_length, List.drop_length] at got
          exact ⟨got.1.symm, got.2.symm⟩
        · simp at got
      · simp at got
  | jsonLine =>
    simp only [mmReceive, protocol, helperSend] at got
    split_ifs at got with memory
    · obtain ⟨whole, nothing⟩ := read_line session.maxFrameBytes (line protocol) [] window got
      exact ⟨whole, nothing⟩
    · simp at got

theorem receive_nothing (session : Session) (window : Nat) (allocated : Bool) :
    (mmReceive session [] window allocated).1 = none := by
  cases protocol : session.protocol with
  | jsonFrameV1 => simp [mmReceive, protocol, mmReadExactDeadline]
  | jsonLine =>
    simp only [mmReceive, protocol]
    split_ifs <;> rfl

end SamosaChat.Multimodal
