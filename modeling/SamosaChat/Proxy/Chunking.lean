import SamosaChat.Proxy.Relay
import SamosaChat.Http.Chunks

set_option autoImplicit false

namespace SamosaChat.Proxy

open Utf8 Text Http

structure Response where
  head : Bytes
  body : Bytes
  first : Text.find crlf2 (head ++ crlf2 ++ body) = some head.length

def Response.bytes (response : Response) : Bytes :=
  response.head ++ crlf2 ++ response.body

def Response.forwarded (streamed : Bool) (response : Response) : Bytes :=
  if streamed then response.body else response.bytes

def dataOf : List Event → List Bytes
  | [] => []
  | .data bytes :: rest => bytes :: dataOf rest
  | .interrupted :: rest => dataOf rest
  | .failed _ :: _ => []

structure Delivery (stream : Bytes) where
  events : List Event
  fits : ∀ chunk ∈ dataOf events, chunk ≠ [] ∧ chunk.length ≤ 65536
  whole : (dataOf events).flatten = stream

-- The empty line comes with the status 200, and until it comes no more than 64 KiB have come.
def HeadArrives (env : Env) : Bytes → List Bytes → Prop
  | _, [] => False
  | got, chunk :: rest =>
    env.grows (got ++ chunk).length = true ∧
      match Text.find crlf2 (cstr (got ++ chunk)) with
      | some _ => proxyHttpStatus (cstr (got ++ chunk)) = 200
      | none => (got ++ chunk).length ≤ maxHeader ∧ HeadArrives env (got ++ chunk) rest

def bodyPieces : Bytes → List Bytes → List Bytes
  | _, [] => []
  | got, chunk :: rest =>
    match Text.find crlf2 (cstr (got ++ chunk)) with
    | some end_ =>
      if (got ++ chunk).length > end_ + 4 then (got ++ chunk).drop (end_ + 4) :: rest else rest
    | none => bodyPieces (got ++ chunk) rest

def pieces (streamed : Bool) (chunks : List Bytes) : List Bytes :=
  if streamed then bodyPieces [] chunks else chunks

structure Exact (relay : Relay) (body : Bytes) : Prop where
  bytes : (relay.sends.map Prod.fst).flatten = body
  taken : ∀ send ∈ relay.sends, send.2 = true
  verdict : relay.sawDone = true ↔ marker <:+: body

structure Passes (env : Env) (call : Call) (response : Response) (chunks : List Bytes) : Prop where
  asked : refusal env call = none
  begun : started env call = true
  head : call.ssePreamble.isSome = true → HeadArrives env [] chunks
  taken : ∀ k < (pieces call.ssePreamble.isSome chunks).length, env.accepts k = true
  unbroken : marker <:+: response.forwarded call.ssePreamble.isSome →
    ∃ piece ∈ pieces call.ssePreamble.isSome chunks, marker <:+: piece

theorem has_done_iff (data : Bytes) : proxyChunkHasDone data = true ↔ marker <:+: data := by
  unfold proxyChunkHasDone
  split
  · rename_i short
    constructor
    · intro no
      cases no
    · intro inside
      exact absurd inside.length_le (Nat.not_le.mpr short)
  · rename_i long
    rw [List.any_eq_true]
    constructor
    · rintro ⟨i, -, same⟩
      have here : (data.drop i).take marker.length = marker := by simpa using same
      rw [← here]
      exact (List.take_prefix _ _).isInfix.trans (List.drop_suffix _ _).isInfix
    · rintro ⟨before, after, rfl⟩
      refine ⟨before.length, ?_, ?_⟩
      · simp only [List.mem_range, List.length_append] at long ⊢
        omega
      · simp [List.append_assoc]

section Forwarding

variable {env : Env} {streamed : Bool}

def Delivered (env : Env) (relay : Relay) (parts : List Bytes) (final : Relay) : Prop :=
  (∀ k < parts.length, env.accepts (relay.sends.length + k) = true) ∧
    final.sends = relay.sends ++ parts.map (·, true) ∧
    final.sawDone = (relay.sawDone || parts.any proxyChunkHasDone) ∧
    final.stripping = false ∧ final.upstreamOk = relay.upstreamOk ∧ final.clientFailed = relay.clientFailed

def Cut (env : Env) (relay : Relay) (parts : List Bytes) (final : Relay) : Prop :=
  (∃ k < parts.length, env.accepts (relay.sends.length + k) = false) ∧ (∃ send ∈ final.sends, send.2 = false)

def passed (bytes : Bytes) (relay : Relay) : Relay :=
  { relay with
    upstreamBytes := relay.upstreamBytes + bytes.length
    sawDone := relay.sawDone || proxyChunkHasDone bytes
    sends := relay.sends ++ [(bytes, true)] }

variable {bytes : Bytes} {relay : Relay}

theorem passed_step {rest : List Event} (plain : relay.stripping = false) (taken : env.accepts relay.sends.length = true) :
    relayLoop env streamed (.data bytes :: rest) relay = relayLoop env streamed rest (passed bytes relay) := by
  simp [relayLoop, receiveOne, plain, forward, taken, passed]

theorem refused_step {rest : List Event} (plain : relay.stripping = false) (refused : env.accepts relay.sends.length = false) :
    (relayLoop env streamed (.data bytes :: rest) relay).sends = relay.sends ++ [(bytes, false)] := by
  simp [relayLoop, receiveOne, plain, forward, refused]

theorem delivered_cons {parts : List Bytes} {final : Relay}
    (taken : env.accepts relay.sends.length = true) (later : Delivered env (passed bytes relay) parts final) :
    Delivered env relay (bytes :: parts) final := by
  obtain ⟨all, sends, saw, strip, up, client⟩ := later
  refine ⟨?_, ?_, ?_, strip, up, client⟩
  · intro k inside
    cases k with
    | zero => exact taken
    | succ k =>
      have here := all k (Nat.lt_of_succ_lt_succ inside)
      rw [passed, List.length_append, List.length_singleton, Nat.add_assoc, Nat.add_comm 1] at here
      exact here
  · simpa [passed] using sends
  · simpa [passed, Bool.or_assoc] using saw

theorem cut_cons {parts : List Bytes} {final : Relay}
    (later : Cut env (passed bytes relay) parts final) : Cut env relay (bytes :: parts) final := by
  obtain ⟨⟨k, inside, refused⟩, cut⟩ := later
  rw [passed, List.length_append, List.length_singleton, Nat.add_assoc, Nat.add_comm 1] at refused
  exact ⟨⟨k + 1, Nat.succ_lt_succ inside, refused⟩, cut⟩

theorem loop_forwards (events : List Event) (relay : Relay) (plain : relay.stripping = false) :
    Delivered env relay (dataOf events) (relayLoop env streamed events relay) ∨
      Cut env relay (dataOf events) (relayLoop env streamed events relay) := by
  induction events generalizing relay with
  | nil => exact .inl ⟨by simp [dataOf], by simp [dataOf, relayLoop], by simp [dataOf, relayLoop], plain, rfl, rfl⟩
  | cons event rest ih =>
    cases event with
    | interrupted => exact ih relay plain
    | failed errno =>
      exact .inl ⟨by simp [dataOf], by simp [dataOf, relayLoop, recvFailed], by simp [dataOf, relayLoop, recvFailed],
        plain, rfl, rfl⟩
    | data bytes =>
      cases taken : env.accepts relay.sends.length with
      | true =>
        rw [passed_step plain taken, dataOf]
        rcases ih (passed bytes relay) plain with delivered | cut
        · exact .inl (delivered_cons taken delivered)
        · exact .inr (cut_cons cut)
      | false =>
        refine .inr ⟨⟨0, by simp [dataOf], taken⟩, (bytes, false), ?_, rfl⟩
        rw [refused_step plain taken]
        simp

end Forwarding

section Stripping

variable {env : Env}

structure Waiting (got : Bytes) (relay : Relay) : Prop where
  stripping : relay.stripping = true
  head : relay.head = got
  sends : relay.sends = []
  sawDone : relay.sawDone = false
  upstreamOk : relay.upstreamOk = true
  clientFailed : relay.clientFailed = false

structure Broken (relay : Relay) : Prop where
  failed : relay.upstreamOk = false ∨ relay.stripping = true
  sends : relay.sends = []
  sawDone : relay.sawDone = false
  clientFailed : relay.clientFailed = false

theorem waiting_broken {got : Bytes} {relay : Relay} (waiting : Waiting got relay) : Broken relay :=
  ⟨.inr waiting.stripping, waiting.sends, waiting.sawDone, waiting.clientFailed⟩

def stripped (text : Bytes) (relay : Relay) (bytes : Bytes) : Relay :=
  { relay with
    upstreamBytes := relay.upstreamBytes + bytes.length
    head := text
    upstreamStatus := 200
    upstreamOk := true
    stripping := false }

def waited (text : Bytes) (relay : Relay) (bytes : Bytes) : Relay :=
  { relay with
    upstreamBytes := relay.upstreamBytes + bytes.length
    head := text }

variable {text : Bytes}

theorem waiting_waited {got bytes : Bytes} {relay : Relay} (waiting : Waiting got relay) : Waiting text (waited text relay bytes) :=
  ⟨waiting.stripping, rfl, waiting.sends, waiting.sawDone, waiting.upstreamOk, waiting.clientFailed⟩

theorem delivered_stripped {got bytes : Bytes} {parts : List Bytes} {relay final : Relay}
    (waiting : Waiting got relay) (delivered : Delivered env (stripped text relay bytes) parts final) :
    Delivered env relay parts final := by
  obtain ⟨all, sends, saw, strip, up, client⟩ := delivered
  exact ⟨all, sends, saw, strip, up.trans waiting.upstreamOk.symm, client⟩

theorem forwards_rest {got bytes : Bytes} {relay : Relay} (waiting : Waiting got relay) (rest : List Event) :
    Delivered env relay (dataOf rest) (relayLoop env true rest (stripped text relay bytes)) ∨
      Cut env relay (dataOf rest) (relayLoop env true rest (stripped text relay bytes)) := by
  rcases @loop_forwards env true rest (stripped text relay bytes) rfl with delivered | cut
  · exact .inl (delivered_stripped waiting delivered)
  · exact .inr cut

section Step

variable {got bytes : Bytes} {rest : List Event} {relay : Relay}

theorem step_no_room (waiting : Waiting got relay) (full : env.grows (got ++ bytes).length = false) :
    Broken (relayLoop env true (.data bytes :: rest) relay) := by
  have stop : relayLoop env true (.data bytes :: rest) relay =
      { relay with upstreamBytes := relay.upstreamBytes + bytes.length, ok := false } := by
    simp only [relayLoop, receiveOne, waiting.stripping, stripHead, waiting.head, full, if_true]
  rw [stop]
  exact ⟨.inr waiting.stripping, waiting.sends, waiting.sawDone, waiting.clientFailed⟩

theorem step_too_large (waiting : Waiting got relay) (room : env.grows (got ++ bytes).length = true)
    (missed : Text.find crlf2 (cstr (got ++ bytes)) = none) (large : (got ++ bytes).length > maxHeader) :
    Broken (relayLoop env true (.data bytes :: rest) relay) := by
  have stop : relayLoop env true (.data bytes :: rest) relay =
      { relay with
        upstreamBytes := relay.upstreamBytes + bytes.length
        head := got ++ bytes
        ok := false
        upstreamOk := false
        upstreamErrno := some .eproto } := by
    simp only [relayLoop, receiveOne, waiting.stripping, stripHead, waiting.head, room, missed, if_true, if_pos large,
      Bool.true_eq_false, if_false]
  rw [stop]
  exact ⟨.inl rfl, waiting.sends, waiting.sawDone, waiting.clientFailed⟩

theorem step_more (waiting : Waiting got relay) (room : env.grows (got ++ bytes).length = true)
    (missed : Text.find crlf2 (cstr (got ++ bytes)) = none) (small : (got ++ bytes).length ≤ maxHeader) :
    relayLoop env true (.data bytes :: rest) relay = relayLoop env true rest (waited (got ++ bytes) relay bytes) := by
  simp only [relayLoop, receiveOne, waiting.stripping, stripHead, waiting.head, room, missed, if_true,
    if_neg (Nat.not_lt.mpr small), Bool.true_eq_false, if_false, waited]

section Waiting

variable {end_ : Nat} (waiting : Waiting got relay) (room : env.grows (got ++ bytes).length = true)
    (found : Text.find crlf2 (cstr (got ++ bytes)) = some end_)
include waiting room found

theorem step_bad_status (other : proxyHttpStatus (cstr (got ++ bytes)) ≠ 200) :
    Broken (relayLoop env true (.data bytes :: rest) relay) := by
  have stop : relayLoop env true (.data bytes :: rest) relay =
      { relay with
        upstreamBytes := relay.upstreamBytes + bytes.length
        head := got ++ bytes
        upstreamStatus := proxyHttpStatus (cstr (got ++ bytes))
        upstreamOk := proxyHttpStatus (cstr (got ++ bytes)) == 200
        stripping := false } := by
    simp only [relayLoop, receiveOne, waiting.stripping, stripHead, waiting.head, room, found, if_true, if_pos other,
      Bool.true_eq_false, if_false]
  rw [stop]
  exact ⟨.inl (by simpa using other), waiting.sends, waiting.sawDone, waiting.clientFailed⟩

theorem step_whole (good : proxyHttpStatus (cstr (got ++ bytes)) = 200) (all : (got ++ bytes).length ≤ end_ + 4) :
    relayLoop env true (.data bytes :: rest) relay = relayLoop env true rest (stripped (got ++ bytes) relay bytes) := by
  simp only [relayLoop, receiveOne, waiting.stripping, stripHead, waiting.head, room, found, good, if_true,
    if_neg (Nat.not_lt.mpr all), Bool.true_eq_false, if_false, ne_eq, not_true_eq_false, stripped, beq_self_eq_true]

theorem step_part (good : proxyHttpStatus (cstr (got ++ bytes)) = 200)
    (more : (got ++ bytes).length > end_ + 4) (taken : env.accepts relay.sends.length = true) :
    relayLoop env true (.data bytes :: rest) relay =
      relayLoop env true rest
        { passed ((got ++ bytes).drop (end_ + 4)) (stripped (got ++ bytes) relay bytes) with
          upstreamBytes := relay.upstreamBytes + bytes.length } := by
  simp only [relayLoop, receiveOne, waiting.stripping, stripHead, waiting.head, room, found, good, if_true,
    if_pos more, Bool.true_eq_false, if_false, ne_eq, not_true_eq_false, stripped, beq_self_eq_true, forward, taken,
    passed]

theorem step_part_refused (good : proxyHttpStatus (cstr (got ++ bytes)) = 200)
    (more : (got ++ bytes).length > end_ + 4) (refused : env.accepts relay.sends.length = false) :
    (relayLoop env true (.data bytes :: rest) relay).sends = relay.sends ++ [((got ++ bytes).drop (end_ + 4), false)] := by
  simp only [relayLoop, receiveOne, waiting.stripping, stripHead, waiting.head, room, found, good, if_true,
    if_pos more, Bool.true_eq_false, Bool.false_eq_true, if_false, ne_eq, not_true_eq_false, forward, refused]

end Waiting

end Step

theorem head_arrives_found {got bytes : Bytes} {rest : List Bytes} {end_ : Nat}
    (found : Text.find crlf2 (cstr (got ++ bytes)) = some end_) : HeadArrives env got (bytes :: rest) ↔
      env.grows (got ++ bytes).length = true ∧ proxyHttpStatus (cstr (got ++ bytes)) = 200 := by
  rw [HeadArrives, found]

theorem head_arrives_missed {got bytes : Bytes} {rest : List Bytes} (missed : Text.find crlf2 (cstr (got ++ bytes)) = none) :
    HeadArrives env got (bytes :: rest) ↔
      env.grows (got ++ bytes).length = true ∧ (got ++ bytes).length ≤ maxHeader ∧ HeadArrives env (got ++ bytes) rest := by
  rw [HeadArrives, missed]

def Strips (env : Env) (got : Bytes) (chunks : List Bytes) (relay final : Relay) : Prop :=
  (HeadArrives env got chunks ∧
      (Delivered env relay (bodyPieces got chunks) final ∨ Cut env relay (bodyPieces got chunks) final)) ∨
    (¬HeadArrives env got chunks ∧ Broken final)

theorem strips_found {got bytes : Bytes} {rest : List Event} {relay : Relay} {end_ : Nat} (waiting : Waiting got relay)
    (room : env.grows (got ++ bytes).length = true) (found : Text.find crlf2 (cstr (got ++ bytes)) = some end_)
    (good : proxyHttpStatus (cstr (got ++ bytes)) = 200) :
    Delivered env relay (bodyPieces got (bytes :: dataOf rest)) (relayLoop env true (.data bytes :: rest) relay) ∨
      Cut env relay (bodyPieces got (bytes :: dataOf rest)) (relayLoop env true (.data bytes :: rest) relay) := by
  rw [bodyPieces, found]
  by_cases more : (got ++ bytes).length > end_ + 4
  · simp only [if_pos more]
    cases taken : env.accepts relay.sends.length with
    | true =>
      rw [step_part waiting room found good more taken]
      rcases @loop_forwards env true rest
        { passed ((got ++ bytes).drop (end_ + 4)) (stripped (got ++ bytes) relay bytes) with
          upstreamBytes := relay.upstreamBytes + bytes.length } rfl with delivered | cut
      · exact .inl (delivered_stripped waiting (delivered_cons taken delivered))
      · have later : Cut env (passed ((got ++ bytes).drop (end_ + 4)) (stripped (got ++ bytes) relay bytes))
            (dataOf rest) _ := cut
        exact .inr (cut_cons later)
    | false =>
      refine .inr ⟨⟨0, Nat.succ_pos _, taken⟩, ((got ++ bytes).drop (end_ + 4), false), ?_, rfl⟩
      rw [step_part_refused waiting room found good more taken]
      simp
  · simp only [if_neg more]
    rw [step_whole waiting room found good (Nat.not_lt.mp more)]
    exact forwards_rest waiting rest

theorem strips_missed {got bytes : Bytes} {rest : List Bytes} {relay final : Relay}
    (room : env.grows (got ++ bytes).length = true) (missed : Text.find crlf2 (cstr (got ++ bytes)) = none)
    (small : (got ++ bytes).length ≤ maxHeader) (later : Strips env (got ++ bytes) rest (waited (got ++ bytes) relay bytes) final) :
    Strips env got (bytes :: rest) relay final := by
  have same : bodyPieces got (bytes :: rest) = bodyPieces (got ++ bytes) rest := by
    rw [bodyPieces, missed]
  unfold Strips
  rw [same]
  rcases later with ⟨arrives, outcome⟩ | ⟨never, broken⟩
  · exact .inl ⟨(head_arrives_missed missed).mpr ⟨room, small, arrives⟩, outcome⟩
  · exact .inr ⟨fun arrives => never ((head_arrives_missed missed).mp arrives).2.2, broken⟩

theorem loop_strips (events : List Event) (got : Bytes) (relay : Relay) (waiting : Waiting got relay) :
    Strips env got (dataOf events) relay (relayLoop env true events relay) := by
  induction events generalizing got relay with
  | nil => exact .inr ⟨id, waiting_broken waiting⟩
  | cons event rest ih =>
    cases event with
    | interrupted => exact ih got relay waiting
    | failed errno => exact .inr ⟨id, .inr waiting.stripping, waiting.sends, waiting.sawDone, waiting.clientFailed⟩
    | data bytes =>
      rw [dataOf]
      cases room : env.grows (got ++ bytes).length with
      | false =>
        refine .inr ⟨fun arrives => ?_, step_no_room waiting room⟩
        have grown := arrives.1
        rw [room] at grown
        cases grown
      | true =>
        cases found : Text.find crlf2 (cstr (got ++ bytes)) with
        | some end_ =>
          by_cases good : proxyHttpStatus (cstr (got ++ bytes)) = 200
          · exact .inl ⟨(head_arrives_found found).mpr ⟨room, good⟩, strips_found waiting room found good⟩
          · refine .inr ⟨fun arrives => good ((head_arrives_found found).mp arrives).2, ?_⟩
            exact step_bad_status waiting room found good
        | none =>
          by_cases large : (got ++ bytes).length > maxHeader
          · refine .inr ⟨fun arrives => ?_, step_too_large waiting room found large⟩
            exact absurd ((head_arrives_missed found).mp arrives).2.1 (Nat.not_le.mpr large)
          · rw [step_more waiting room found (Nat.not_lt.mp large)]
            exact strips_missed room found (Nat.not_lt.mp large) (ih _ _ (waiting_waited waiting))

end Stripping

section Body

theorem found_in_head {response : Response} {text : Bytes} {end_ : Nat} (start : text <+: response.bytes)
    (found : Text.find crlf2 (cstr text) = some end_) : end_ = response.head.length := by
  have whole := find_longer (cstr_start text |>.trans start) found
  rw [Response.bytes, response.first] at whole
  exact (Option.some.inj whole).symm

theorem body_pieces_whole {env : Env} (response : Response) (chunks : List Bytes) (got : Bytes)
    (whole : got ++ chunks.flatten = response.bytes) (arrives : HeadArrives env got chunks) :
    (bodyPieces got chunks).flatten = response.body := by
  induction chunks generalizing got with
  | nil => exact arrives.elim
  | cons chunk rest ih =>
    rw [List.flatten_cons, ← List.append_assoc] at whole
    cases found : Text.find crlf2 (cstr (got ++ chunk)) with
    | none =>
      rw [bodyPieces, found]
      exact ih (got ++ chunk) whole ((head_arrives_missed found).mp arrives).2.2
    | some end_ =>
      have start : got ++ chunk <+: response.bytes := ⟨_, whole⟩
      have place := found_in_head start found
      have room := found_length (find_longer (cstr_start (got ++ chunk)) found)
      have rest_ : (got ++ chunk).drop (end_ + 4) ++ rest.flatten = response.body := by
        have cut : response.bytes.drop (end_ + 4) = response.body := by
          rw [place, Response.bytes]
          exact List.drop_left' (by simp [crlf2_length])
        have inside : end_ + 4 ≤ (got ++ chunk).length := room
        rw [← cut, ← whole, List.drop_append_of_le_length inside]
      rw [bodyPieces, found]
      by_cases more : (got ++ chunk).length > end_ + 4
      · simpa only [if_pos more, List.flatten_cons] using rest_
      · simp only [if_neg more]
        rw [← rest_, List.drop_of_length_le (Nat.not_lt.mp more), List.nil_append]

theorem pieces_whole {env : Env} {call : Call} (response : Response) (delivery : Delivery response.bytes)
    (head : call.ssePreamble.isSome = true → HeadArrives env [] (dataOf delivery.events)) :
    (pieces call.ssePreamble.isSome (dataOf delivery.events)).flatten = response.forwarded call.ssePreamble.isSome := by
  cases streamed : call.ssePreamble.isSome with
  | true => exact body_pieces_whole response (dataOf delivery.events) [] delivery.whole (head streamed)
  | false => exact delivery.whole

end Body

section Close

variable {env : Env}

theorem stream_error_marked {message code event : Bytes} (built : proxyStreamError message code = some event) :
    marker <:+: event := by
  obtain ⟨first, -, rest⟩ := Option.bind_eq_some_iff.mp built
  obtain ⟨second, -, same⟩ := Option.bind_eq_some_iff.mp rest
  cases same
  exact ⟨second ++ utf8 "\x7d\x7d\n\n", utf8 "\n\n", by rw [List.append_assoc, List.append_assoc]; rfl⟩

theorem stream_error_built (message code : Bytes) : ∃ event, proxyStreamError message code = some event := by
  unfold proxyStreamError
  simp only [Json.text_json_string_eq]
  exact ⟨_, rfl⟩

variable {relay : Relay}

theorem broken_not_exact (broken : Broken relay) (body : Bytes) : ¬Exact (closeRelay env true relay) body := by
  intro exact_
  have reports : (true && (!relay.upstreamOk || relay.stripping) && !relay.clientFailed) = true := by
    rcases broken.failed with bad | still
    · simp [bad, broken.clientFailed]
    · simp [still, broken.clientFailed]
  obtain ⟨event, built⟩ := stream_error_built (failureMessage env relay).1 (failureMessage env relay).2
  have closed : closeRelay env true relay =
      { relay with sends := relay.sends ++ [(event, env.accepts relay.sends.length)], ok := false } := by
    unfold closeRelay
    rw [if_pos reports]
    simp only [built]
  rw [closed] at exact_
  have sent : event = body := by simpa [broken.sends] using exact_.bytes
  have seen : relay.sawDone = true := exact_.verdict.mpr (sent ▸ stream_error_marked built)
  rw [broken.sawDone] at seen
  cases seen

theorem close_forwarded (streamed : Bool) (up : relay.upstreamOk = true) (strip : relay.stripping = false) :
    closeRelay env streamed relay = relay := by
  unfold closeRelay
  rw [if_neg (by simp [up, strip])]

theorem close_sends (streamed : Bool) {send : Bytes × Bool} (inside : send ∈ relay.sends) :
    send ∈ (closeRelay env streamed relay).sends := by
  unfold closeRelay
  split
  · split
    split
    · exact List.mem_append_left _ inside
    · exact inside
  · exact inside

theorem cut_not_exact {final : Relay} {parts : List Bytes} (streamed : Bool) (cut : Cut env relay parts final)
    (body : Bytes) : ¬Exact (closeRelay env streamed final) body := by
  intro exact_
  obtain ⟨-, send, inside, refused⟩ := cut
  have taken := exact_.taken send (close_sends streamed inside)
  rw [refused] at taken
  cases taken

theorem delivered_exact {call : Call} {final : Relay} {parts : List Bytes} (streamed : Bool)
    (delivered : Delivered env (startRelay call true) parts final) : Exact (closeRelay env streamed final) parts.flatten ↔
      (marker <:+: parts.flatten → ∃ piece ∈ parts, marker <:+: piece) := by
  obtain ⟨-, sends, saw, strip, up, -⟩ := delivered
  rw [close_forwarded streamed up strip]
  have seen : final.sawDone = true ↔ ∃ piece ∈ parts, marker <:+: piece := by
    rw [saw, startRelay, Bool.false_or, List.any_eq_true]
    simp only [has_done_iff]
  have whole : (final.sends.map Prod.fst).flatten = parts.flatten := by
    rw [sends, startRelay, List.nil_append, List.map_map]
    exact congrArg List.flatten (List.map_id parts)
  constructor
  · intro exact_ inside
    exact seen.mp (exact_.verdict.mpr inside)
  · intro unbroken
    refine ⟨whole, ?_, seen.trans ⟨?_, unbroken⟩⟩
    · rw [sends, startRelay]
      simp
    · rintro ⟨piece, inside, here⟩
      exact here.trans (List.infix_of_mem_flatten inside)

end Close

theorem waiting_start (call : Call) (streamed : call.ssePreamble.isSome = true) : Waiting [] (startRelay call true) :=
  ⟨streamed, rfl, rfl, rfl, rfl, rfl⟩

theorem unstarted_not_exact {env : Env} {call : Call} (response : Response) :
    ¬Exact (closeRelay env call.ssePreamble.isSome (startRelay call false)) (response.forwarded call.ssePreamble.isSome) := by
  cases streamed : call.ssePreamble.isSome with
  | true => exact broken_not_exact ⟨.inr streamed, rfl, rfl, rfl⟩ _
  | false =>
    intro exact_
    have nothing : ([] : Bytes) = response.bytes := exact_.bytes
    have size := congrArg List.length nothing
    simp only [Response.bytes, List.length_append, crlf2_length, List.length_nil] at size
    omega

theorem loop_exact {env : Env} {call : Call} (response : Response) (delivery : Delivery response.bytes) : Exact
        (closeRelay env call.ssePreamble.isSome
          (relayLoop env call.ssePreamble.isSome delivery.events (startRelay call true)))
        (response.forwarded call.ssePreamble.isSome) ↔
      (call.ssePreamble.isSome = true → HeadArrives env [] (dataOf delivery.events)) ∧
        (∀ k < (pieces call.ssePreamble.isSome (dataOf delivery.events)).length, env.accepts k = true) ∧
        (marker <:+: response.forwarded call.ssePreamble.isSome →
          ∃ piece ∈ pieces call.ssePreamble.isSome (dataOf delivery.events), marker <:+: piece) := by
  have outcome :
      ((call.ssePreamble.isSome = true → HeadArrives env [] (dataOf delivery.events)) ∧
        (Delivered env (startRelay call true) (pieces call.ssePreamble.isSome (dataOf delivery.events))
            (relayLoop env call.ssePreamble.isSome delivery.events (startRelay call true)) ∨
          Cut env (startRelay call true) (pieces call.ssePreamble.isSome (dataOf delivery.events))
            (relayLoop env call.ssePreamble.isSome delivery.events (startRelay call true)))) ∨
      (call.ssePreamble.isSome = true ∧ ¬HeadArrives env [] (dataOf delivery.events) ∧
        Broken (relayLoop env call.ssePreamble.isSome delivery.events (startRelay call true))) := by
    cases streamed : call.ssePreamble.isSome with
    | true =>
      rcases loop_strips delivery.events [] (startRelay call true) (waiting_start call streamed) with
        ⟨arrives, forwarded⟩ | ⟨never, broken⟩
      · exact .inl ⟨fun _ => arrives, forwarded⟩
      · exact .inr ⟨rfl, never, broken⟩
    | false =>
      refine .inl ⟨fun no => absurd no Bool.false_ne_true, ?_⟩
      exact loop_forwards delivery.events (startRelay call true) streamed
  rcases outcome with ⟨head, delivered | cut⟩ | ⟨streamed, never, broken⟩
  · rw [← pieces_whole response delivery head, delivered_exact call.ssePreamble.isSome delivered]
    have taken : ∀ k < (pieces call.ssePreamble.isSome (dataOf delivery.events)).length, env.accepts k = true := by
      simpa [startRelay] using delivered.1
    exact ⟨fun unbroken => ⟨head, taken, unbroken⟩, fun passes => passes.2.2⟩
  · refine ⟨fun exact_ => absurd exact_ (cut_not_exact _ cut _), fun passes => ?_⟩
    obtain ⟨⟨k, inside, refused⟩, -⟩ := cut
    have taken := passes.2.1 k inside
    simp only [startRelay, List.length_nil, Nat.zero_add] at refused
    rw [refused] at taken
    cases taken
  · rw [streamed] at broken ⊢
    refine ⟨fun exact_ => absurd exact_ (broken_not_exact broken _), fun passes => ?_⟩
    exact absurd (passes.1 rfl) never

theorem passes_iff (env : Env) (call : Call) (response : Response) (delivery : Delivery response.bytes) :
    (∃ relay, proxyRequestEx env call delivery.events = .ok relay ∧
        Exact relay (response.forwarded call.ssePreamble.isSome)) ↔ Passes env call response (dataOf delivery.events) := by
  unfold proxyRequestEx
  cases asked : refusal env call with
  | some refusal =>
    constructor
    · rintro ⟨relay, refused, -⟩
      cases refused
    · intro passes
      rw [passes.asked] at asked
      cases asked
  | none =>
    cases begun : started env call with
    | true =>
      simp only [if_true]
      constructor
      · rintro ⟨relay, same, exact_⟩
        cases same
        obtain ⟨head, taken, unbroken⟩ := (loop_exact response delivery).mp exact_
        exact ⟨asked, begun, head, taken, unbroken⟩
      · intro passes
        exact ⟨_, rfl, (loop_exact response delivery).mpr ⟨passes.head, passes.taken, passes.unbroken⟩⟩
    | false =>
      simp only [Bool.false_eq_true, if_false]
      constructor
      · rintro ⟨relay, same, exact_⟩
        cases same
        exact absurd exact_ (unstarted_not_exact response)
      · intro passes
        rw [passes.begun] at begun
        cases begun

theorem exact_agree {first second : Relay} {body : Bytes} (one : Exact first body) (other : Exact second body) :
    (first.sends.map Prod.fst).flatten = (second.sends.map Prod.fst).flatten ∧ first.sawDone = second.sawDone := by
  refine ⟨one.bytes.trans other.bytes.symm, ?_⟩
  rw [Bool.eq_iff_iff, one.verdict, other.verdict]

-- The client gets the upstream's bytes and the verdict is the stream's, exactly when nothing stands in the way
-- and the marker comes in one piece; of two such deliveries of one answer neither client nor verdict sees which it was.
theorem proxy_request_exact (env : Env) (call : Call) (response : Response) :
    (∀ delivery : Delivery response.bytes,
      (∃ relay, proxyRequestEx env call delivery.events = .ok relay ∧
          Exact relay (response.forwarded call.ssePreamble.isSome)) ↔
        Passes env call response (dataOf delivery.events)) ∧
    ∀ first second : Delivery response.bytes,
      Passes env call response (dataOf first.events) → Passes env call response (dataOf second.events) →
      ∃ one other, proxyRequestEx env call first.events = .ok one ∧ proxyRequestEx env call second.events = .ok other ∧
        (one.sends.map Prod.fst).flatten = (other.sends.map Prod.fst).flatten ∧ one.sawDone = other.sawDone := by
  refine ⟨passes_iff env call response, fun first second firstPasses secondPasses => ?_⟩
  obtain ⟨one, answered, exact_⟩ := (passes_iff env call response first).mpr firstPasses
  obtain ⟨other, answered', exact'⟩ := (passes_iff env call response second).mpr secondPasses
  exact ⟨one, other, answered, answered', exact_agree exact_ exact'⟩

def calm : Env where
  available := true
  probed := true
  connected := true
  specialistActive := false
  requestSent := true
  streamHead := true
  preambleSent := true
  accepts := fun _ => true
  grows := fun _ => true
  strerror := fun _ => []

def streamCall : Call where
  ssePreamble := some []
  clientStreamStarted := true

def doneResponse : Response where
  head := utf8 "HTTP/1.1 200 OK"
  body := utf8 "data: [DONE]\n\n"
  first := by decide +kernel

def wholeDelivery : Delivery doneResponse.bytes where
  events := [.data (utf8 "HTTP/1.1 200 OK\r\n\r\ndata: [DONE]\n\n")]
  fits := by decide +kernel
  whole := by decide +kernel

theorem whole_delivery_exact :
    ∃ relay, proxyRequestEx calm streamCall wholeDelivery.events = .ok relay ∧
      Exact relay (doneResponse.forwarded streamCall.ssePreamble.isSome) := by
  have found : Text.find crlf2 (cstr ([] ++ utf8 "HTTP/1.1 200 OK\r\n\r\ndata: [DONE]\n\n")) = some 15 := by
    decide +kernel
  have parts : pieces streamCall.ssePreamble.isSome (dataOf wholeDelivery.events) = [utf8 "data: [DONE]\n\n"] := by
    decide +kernel
  refine ((proxy_request_exact calm streamCall doneResponse).1 wholeDelivery).mpr ⟨rfl, rfl, fun _ => ?_, fun _ _ => rfl, fun _ => ?_⟩
  · exact (head_arrives_found found).mpr ⟨rfl, by decide +kernel⟩
  · rw [parts]
    exact ⟨_, List.mem_singleton_self _, [], utf8 "\n\n", by decide +kernel⟩

def splitDelivery : Delivery doneResponse.bytes where
  events := [.data (utf8 "HTTP/1.1 200 OK\r\n\r\ndata: [DO"), .data (utf8 "NE]\n\n")]
  fits := by decide +kernel
  whole := by decide +kernel

theorem split_marker_missed :
    ¬∀ (env : Env) (call : Call) (response : Response) (delivery : Delivery response.bytes),
      ∃ relay, proxyRequestEx env call delivery.events = .ok relay ∧
        Exact relay (response.forwarded call.ssePreamble.isSome) := by
  intro always
  obtain ⟨relay, answered, exact_⟩ := always calm streamCall doneResponse splitDelivery
  have inside : marker <:+: doneResponse.body := ⟨[], utf8 "\n\n", by decide +kernel⟩
  have seen := exact_.verdict.mpr inside
  have missed : ((proxyRequestEx calm streamCall splitDelivery.events).toOption.map Relay.sawDone) = some false := by
    decide +kernel
  rw [answered] at missed
  rw [show Option.map Relay.sawDone (Except.ok relay : Except Refusal Relay).toOption = some relay.sawDone from rfl, seen]
    at missed
  cases missed

end SamosaChat.Proxy
