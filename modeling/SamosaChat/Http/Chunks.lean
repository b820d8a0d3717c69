import SamosaChat.Http.Request

set_option autoImplicit false

namespace SamosaChat.Http

open Utf8 Text

structure Split (stream : Bytes) where
  chunks : Wire
  some_ : ∀ chunk ∈ chunks, chunk ≠ []
  whole : chunks.flatten = stream

def requestOf (env : Env) (stream : Bytes) : Outcome :=
  if env.buffer = false then .rejected 400
  else
    match find crlf2 (cstr (stream.take maxHeader)) with
    | none => .rejected (if maxHeader ≤ stream.length then 413 else 400)
    | some end_ =>
      match parseHead (stream.take (end_ + 4)) (end_ + 4) with
      | .error status => .rejected status
      | .ok head =>
        let left := stream.drop (end_ + 4)
        let body := left.take head.contentLength
        if streamAttachment head then
          if (uploadName env.tmpdir).length ≥ pathMax ∨ env.mkstemp = false then .rejected 500
          else if head.contentLength ≤ left.length ∧ head.contentLength ≤ env.disk ∧ env.finish = true then
            .accepted head.request (.file body)
          else .rejected 400
        else if env.body head.contentLength = false then .rejected 500
        else if head.contentLength ≤ left.length then .accepted head.request (.memory body)
        else .rejected 400

variable {got stream : Bytes} {wire : Wire}

theorem recv_some {want : Nat} {wire' : Wire} (some_ : ∀ chunk ∈ wire, chunk ≠ []) (positive : 0 < want)
    (received : recv want wire = some (got, wire')) :
    got ≠ [] ∧ got.length ≤ want ∧ got ++ wire'.flatten = wire.flatten ∧ ∀ chunk ∈ wire', chunk ≠ [] := by
  cases wire with
  | nil => cases received
  | cons chunk wire =>
    obtain ⟨rfl, rfl⟩ := Prod.mk.inj (Option.some.inj received)
    have first := List.length_pos_iff.mpr (some_ chunk (by simp))
    refine ⟨List.length_pos_iff.mp (by rw [List.length_take]; omega), by rw [List.length_take]; omega, ?_, ?_⟩
    · split_ifs with short
      · rw [List.take_of_length_le short, List.flatten_cons]
      · rw [List.flatten_cons, ← List.append_assoc, List.take_append_drop, List.flatten_cons]
    · intro other inside
      split_ifs at inside with short
      · exact some_ other (List.mem_cons_of_mem _ inside)
      · rcases List.mem_cons.mp inside with rfl | later
        · exact List.length_pos_iff.mp (by rw [List.length_drop]; omega)
        · exact some_ other (List.mem_cons_of_mem _ later)

theorem recv_none {want : Nat} (ended : recv want wire = none) : wire = [] := by
  cases wire with
  | nil => rfl
  | cons chunk wire => cases ended

theorem crlf2_length : crlf2.length = 4 := by
  decide

theorem read_head_end (stream : Bytes) (fuel : Nat) :
    ∀ (buffer : Bytes) (wire : Wire), (∀ chunk ∈ wire, chunk ≠ []) → buffer ++ wire.flatten = stream →
      buffer.length ≤ maxHeader → maxHeader < fuel + buffer.length → find crlf2 (cstr buffer) = none →
      match find crlf2 (cstr (stream.take maxHeader)) with
      | none => readHead fuel buffer wire = .error (if maxHeader ≤ stream.length then 413 else 400)
      | some end_ =>
        ∃ buffer' wire', readHead fuel buffer wire = .ok (buffer', end_ + 4, wire') ∧
          buffer' ++ wire'.flatten = stream ∧ end_ + 4 ≤ buffer'.length ∧ ∀ chunk ∈ wire', chunk ≠ [] := by
  induction fuel with
  | zero => exact fun buffer wire _ _ most enough _ => by omega
  | succ fuel ih =>
    intro buffer wire some_ whole most enough missed
    by_cases room : buffer.length < maxHeader
    · cases received : recv (maxHeader - buffer.length) wire with
      | none =>
        -- The stream has ended inside the header.
        have ended := recv_none received
        subst ended
        rw [List.flatten_nil, List.append_nil] at whole
        subst whole
        rw [List.take_of_length_le most, missed, readHead, if_pos room, received]
        simp only
        rw [if_neg (by omega)]
      | some pair =>
        obtain ⟨got, wire'⟩ := pair
        obtain ⟨more, size, rest, some'⟩ := recv_some some_ (by omega) received
        have grown := List.length_pos_iff.mpr more
        have whole' : (buffer ++ got) ++ wire'.flatten = stream := by
          rw [List.append_assoc, rest, whole]
        have most' : (buffer ++ got).length ≤ maxHeader := by
          rw [List.length_append]
          omega
        rw [readHead, if_pos room, received]
        simp only
        cases found : find crlf2 (cstr (buffer ++ got)) with
        | none =>
          refine ih (buffer ++ got) wire' some' whole' most' ?_ found
          rw [List.length_append]
          omega
        | some end_ =>
          have start : buffer ++ got <+: stream.take maxHeader :=
            List.prefix_take_iff.mpr ⟨⟨_, whole'⟩, most'⟩
          rw [find_longer (cstr_mono start) found]
          have inside := found_length found
          have short := (cstr_start (buffer ++ got)).length_le
          rw [crlf2_length] at inside
          exact ⟨buffer ++ got, wire', rfl, whole', by omega, some'⟩
    · -- The buffer is full.
      have full : buffer = stream.take maxHeader := by
        rw [← whole, List.take_append_of_le_length (by omega), List.take_of_length_le (by omega)]
      have long : maxHeader ≤ stream.length := by
        rw [← whole, List.length_append]
        omega
      rw [← full, missed, readHead, if_neg room, if_pos long]

structure Header (bytes : Bytes) : Prop where
  text : (0 : UInt8) ∉ bytes
  long : 4 ≤ bytes.length
  ends : crlf2 <+: bytes.drop (bytes.length - 4)

theorem header_of_found {end_ : Nat} (found : find crlf2 (cstr (stream.take maxHeader)) = some end_) :
    Header (stream.take (end_ + 4)) ∧ (stream.take (end_ + 4)).length = end_ + 4 := by
  have inside := found_length found
  rw [crlf2_length] at inside
  have start : cstr (stream.take maxHeader) <+: stream := (cstr_start _).trans (List.take_prefix _ _)
  have same : stream.take (end_ + 4) = (cstr (stream.take maxHeader)).take (end_ + 4) := by
    obtain ⟨rest, whole⟩ := start
    conv_lhs => rw [← whole]
    rw [List.take_append_of_le_length inside]
  have size : (stream.take (end_ + 4)).length = end_ + 4 := by
    rw [same, List.length_take]
    omega
  refine ⟨⟨?_, by omega, ?_⟩, size⟩
  · rw [same]
    exact fun zero_ => cstr_text _ (List.mem_of_mem_take zero_)
  · rw [size, Nat.add_sub_cancel, same, List.drop_take, Nat.add_sub_cancel_left]
    exact List.prefix_take_iff.mpr ⟨(find_some found).1, Nat.le_of_eq crlf2_length⟩

variable {bytes : Bytes}

theorem line_end_found (header : Header bytes) (left : Bytes) {cursor : Nat} (inside : cursor ≤ bytes.length - 2) :
    ∃ next, find crlf (cstr (bytes.drop cursor)) = some next ∧
      find crlf (cstr ((bytes ++ left).drop cursor)) = some next ∧ cursor + next ≤ bytes.length := by
  have long := header.long
  have text : (0 : UInt8) ∉ bytes.drop cursor := fun zero_ => header.text (List.mem_of_mem_drop zero_)
  have ends : crlf <+: (bytes.drop cursor).drop (bytes.length - 2 - cursor) := by
    have second : crlf = crlf2.drop 2 := by decide
    obtain ⟨rest, shape⟩ := header.ends
    have at_ : (bytes.drop cursor).drop (bytes.length - 2 - cursor) = (bytes.drop (bytes.length - 4)).drop 2 := by
      rw [List.drop_drop, List.drop_drop]
      congr 1
      omega
    rw [at_, ← shape, List.drop_append_of_le_length (by decide), ← second]
    exact List.prefix_append _ _
  have whole : (bytes ++ left).drop cursor = bytes.drop cursor ++ left := List.drop_append_of_le_length (by omega)
  cases found : find crlf (bytes.drop cursor) with
  | none => exact absurd ends (find_none found _ (by rw [List.length_drop]; omega))
  | some next =>
    have room := found_length found
    rw [List.length_drop] at room
    refine ⟨next, by rw [cstr_self text, found], ?_, by omega⟩
    rw [whole, cstr_append text]
    exact find_longer (List.prefix_append _ _) found

theorem header_lines_left (header : Header bytes) (left : Bytes) (fuel : Nat) : ∀ (cursor : Nat) (head : Head),
      headerLines (bytes ++ left) bytes.length fuel cursor head = headerLines bytes bytes.length fuel cursor head := by
  induction fuel with
  | zero => exact fun _ _ => rfl
  | succ fuel ih =>
    intro cursor head
    rw [headerLines, headerLines]
    by_cases inside : cursor < bytes.length - 2
    · obtain ⟨next, found, found', room⟩ := line_end_found header left (Nat.le_of_lt inside)
      have line : ((bytes ++ left).drop cursor).take next = (bytes.drop cursor).take next := by
        rw [List.drop_append_of_le_length (by omega), List.take_append_of_le_length (by rw [List.length_drop]; omega)]
      rw [if_pos inside, if_pos inside, found, found']
      simp only
      rw [line]
      cases headerLine ((bytes.drop cursor).take next) head with
      | error status => rfl
      | ok head => exact ih _ head
    · rw [if_neg inside, if_neg inside]

theorem parse_head_left (header : Header bytes) (left : Bytes) :
    parseHead (bytes ++ left) bytes.length = parseHead bytes bytes.length := by
  obtain ⟨next, found, found', room⟩ := @line_end_found _ header left 0 (Nat.zero_le _)
  rw [List.drop_zero] at found found'
  unfold parseHead
  rw [found, found']
  simp only
  rw [List.take_append_of_le_length (by omega)]
  cases scanRequestLine (bytes.take next) with
  | none => rfl
  | some words => exact header_lines_left header left _ _ _

theorem receive_body {most room contentLength : Nat} (left : Bytes) (positive : 0 < contentLength → 0 < most) (fuel : Nat) :
    ∀ (body : Bytes) (wire : Wire), (∀ chunk ∈ wire, chunk ≠ []) → body.length ≤ contentLength →
      contentLength ≤ fuel + body.length → body.length ≤ room →
      (body.length < contentLength → body ++ wire.flatten = left) → (body.length = contentLength → body <+: left) →
      receive most room contentLength fuel body wire =
        if contentLength ≤ left.length ∧ contentLength ≤ room then some (left.take contentLength) else none := by
  induction fuel with
  | zero =>
    intro body wire _ most_ enough fits _ done
    have same : body.length = contentLength := by omega
    have start := done same
    have long := start.length_le
    rw [receive, if_pos ⟨by omega, by omega⟩, ← same, ← List.prefix_iff_eq_take.mp start]
  | succ fuel ih =>
    intro body wire some_ most_ enough fits short done
    by_cases more : body.length < contentLength
    · have whole := short more
      have want : 0 < min (contentLength - body.length) most := by
        have := positive (by omega)
        omega
      rw [receive, if_pos more]
      cases received : recv (min (contentLength - body.length) most) wire with
      | none =>
        have ended := recv_none received
        subst ended
        rw [List.flatten_nil, List.append_nil] at whole
        subst whole
        rw [if_neg (by omega)]
      | some pair =>
        obtain ⟨got, wire'⟩ := pair
        obtain ⟨_, size, rest, some'⟩ := recv_some some_ want received
        have grown : (body ++ got).length = body.length + got.length := List.length_append
        have whole' : (body ++ got) ++ wire'.flatten = left := by
          rw [List.append_assoc, rest, whole]
        have bound : got.length ≤ contentLength - body.length := by omega
        simp only
        by_cases fits' : body.length + got.length ≤ room
        · rw [if_pos fits']
          have positive' := List.length_pos_iff.mpr (by assumption : got ≠ [])
          exact ih (body ++ got) wire' some' (by omega) (by omega) (by omega) (fun _ => whole')
            fun _ => ⟨_, whole'⟩
        · rw [if_neg fits', if_neg (by omega)]
    · have same : body.length = contentLength := by omega
      have start := done same
      have long := start.length_le
      rw [receive, if_neg more, if_pos ⟨by omega, by omega⟩, ← same, ← List.prefix_iff_eq_take.mp start]

theorem receive_present {most contentLength room : Nat} {left : Bytes}
    (some_ : ∀ chunk ∈ wire, chunk ≠ []) (whole : got ++ wire.flatten = left) (positive : 0 < contentLength → 0 < most)
    (fits : (got.take contentLength).length ≤ room) :
    receive most room contentLength (contentLength - (got.take contentLength).length) (got.take contentLength) wire =
      if contentLength ≤ left.length ∧ contentLength ≤ room then some (left.take contentLength) else none := by
  have size : (got.take contentLength).length = min contentLength got.length := List.length_take
  refine receive_body left positive _ _ _ some_ (by omega) (by omega) fits (fun short => ?_) fun _ => ?_
  · rw [List.take_of_length_le (by omega), whole]
  · exact (List.take_prefix _ _).trans ⟨_, whole⟩

theorem read_body_end (env : Env) (head : Head) {left : Bytes} (some_ : ∀ chunk ∈ wire, chunk ≠ [])
    (whole : got ++ wire.flatten = left) : readBody env head got wire = if streamAttachment head then
        if (uploadName env.tmpdir).length ≥ pathMax ∨ env.mkstemp = false then .rejected 500
        else if head.contentLength ≤ left.length ∧ head.contentLength ≤ env.disk ∧ env.finish = true then
          .accepted head.request (.file (left.take head.contentLength)) else .rejected 400
      else if env.body head.contentLength = false then .rejected 500
      else if head.contentLength ≤ left.length then .accepted head.request (.memory (left.take head.contentLength))
      else .rejected 400 := by
  have size : (got.take head.contentLength).length = min head.contentLength got.length := List.length_take
  have longer : got.length ≤ left.length := by
    rw [← whole, List.length_append]
    omega
  unfold readBody
  simp only
  by_cases upload : streamAttachment head = true
  · rw [if_pos upload, if_pos upload, readUpload]
    by_cases name : (uploadName env.tmpdir).length ≥ pathMax
    · rw [if_pos name, if_pos (.inl name)]
    rw [if_neg name]
    by_cases made : env.mkstemp = false
    · rw [if_pos made, if_pos (.inr made)]
    · rw [if_neg made, if_neg (not_or.mpr ⟨name, made⟩)]
      by_cases full : env.disk < (got.take head.contentLength).length
      · rw [if_pos full, if_neg (by omega)]
      · rw [if_neg full, receive_present some_ whole (fun _ => by omega) (by omega)]
        by_cases complete : head.contentLength ≤ left.length ∧ head.contentLength ≤ env.disk
        · rw [if_pos complete]
          simp [complete]
        · rw [if_neg complete, if_neg (fun all => complete ⟨all.1, all.2.1⟩)]
  · rw [if_neg upload, if_neg upload, readMemory]
    by_cases granted : env.body head.contentLength = false
    · rw [if_pos granted, if_pos granted]
    · rw [if_neg granted, if_neg granted, receive_present some_ whole (fun positive => positive) (by omega)]
      by_cases complete : head.contentLength ≤ left.length
      · rw [if_pos ⟨complete, Nat.le_refl _⟩, if_pos complete]
      · rw [if_neg (fun all => complete all.1), if_neg complete]

theorem read_request_stream (env : Env) (split : Split stream) : samosaHttpReadRequest env split.chunks = requestOf env stream := by
  have empty : find crlf2 (cstr []) = none := by decide
  have read := read_head_end stream (maxHeader + 1) [] split.chunks split.some_ split.whole (Nat.zero_le _)
    (by simp) empty
  unfold samosaHttpReadRequest requestOf
  by_cases granted : env.buffer = false
  · rw [if_pos granted, if_pos granted]
  rw [if_neg granted, if_neg granted]
  cases found : find crlf2 (cstr (stream.take maxHeader)) with
  | none =>
    rw [found] at read
    rw [read]
  | some end_ =>
    rw [found] at read
    obtain ⟨buffer, wire, ok, whole, inside, some_⟩ := read
    obtain ⟨header, size⟩ := header_of_found found
    have front : buffer.take (end_ + 4) = stream.take (end_ + 4) := by
      rw [← whole, List.take_append_of_le_length inside]
    have left : buffer.drop (end_ + 4) ++ wire.flatten = stream.drop (end_ + 4) := by
      rw [← whole, List.drop_append_of_le_length inside]
    have parsed := parse_head_left header (buffer.drop (end_ + 4))
    rw [← front, List.take_append_drop, front, size] at parsed
    rw [ok]
    simp only
    rw [parsed]
    cases parseHead (stream.take (end_ + 4)) (end_ + 4) with
    | error status => rfl
    | ok head => exact read_body_end env head some_ left

def BodyOf (stream : Bytes) (request : Request) (body : Body) : Prop :=
  ∃ end_ head, find crlf2 stream = some end_ ∧ parseHead (stream.take (end_ + 4)) (end_ + 4) = .ok head ∧
    head.request = request ∧ head.contentLength ≤ (stream.drop (end_ + 4)).length ∧
    body = (if streamAttachment head then Body.file else Body.memory) ((stream.drop (end_ + 4)).take head.contentLength)

theorem request_body {env : Env} {request : Request} {body : Body}
    (accepted : requestOf env stream = .accepted request body) : BodyOf stream request body := by
  unfold requestOf at accepted
  obtain ⟨granted, accepted⟩ := past_guard accepted nofun
  cases found : find crlf2 (cstr (stream.take maxHeader)) with
  | none =>
    rw [found] at accepted
    cases accepted
  | some end_ =>
    rw [found] at accepted
    simp only at accepted
    cases parsed : parseHead (stream.take (end_ + 4)) (end_ + 4) with
    | error status =>
      rw [parsed] at accepted
      cases accepted
    | ok head =>
      rw [parsed] at accepted
      have start : cstr (stream.take maxHeader) <+: stream := (cstr_start _).trans (List.take_prefix _ _)
      refine ⟨end_, head, find_longer start found, parsed, ?_⟩
      dsimp only at accepted
      split_ifs at accepted with upload refused complete room complete
      · cases accepted
        exact ⟨rfl, complete.1, by rw [if_pos upload]⟩
      · cases accepted
        exact ⟨rfl, complete, by rw [if_neg upload]⟩

-- A request does not depend on how its bytes come in, and its body is what the header announces.
theorem read_request_chunks (env : Env) (stream : Bytes) (first second : Split stream) :
    samosaHttpReadRequest env first.chunks = samosaHttpReadRequest env second.chunks ∧
      ∀ request body, samosaHttpReadRequest env first.chunks = .accepted request body → BodyOf stream request body := by
  rw [read_request_stream env first, read_request_stream env second]
  exact ⟨rfl, fun request body accepted => request_body accepted⟩

def grants : Env where
  buffer := true
  body := fun _ => true
  tmpdir := none
  mkstemp := true
  disk := maxAttachmentBody
  finish := true

theorem read_request_chunks_small :
    BodyOf (utf8 "POST /v1/x HTTP/1.1\r\nContent-Length: 2\r\n\r\nabc")
      (emptyRequest (utf8 "POST") (utf8 "/v1/x") []) (.memory (utf8 "ab")) :=
  (read_request_chunks grants (utf8 "POST /v1/x HTTP/1.1\r\nContent-Length: 2\r\n\r\nabc")
    ⟨[utf8 "POST /v1/x HTTP/1.1\r\nContent-Length: 2\r\n\r", utf8 "\nabc"], by decide, by decide⟩
    ⟨[utf8 "POST /v1/x HTTP/1.1\r\nContent-Length: 2\r\n\r\nabc"], by decide, by decide⟩).2 _ _ (by decide +kernel)

end SamosaChat.Http
