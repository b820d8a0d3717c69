import Mathlib.Data.List.DropRight
import SamosaChat.Http.Chunks

set_option autoImplicit false

namespace SamosaChat.Http

open Utf8 Text Decimal

def space : UInt8 := 0x20

def field (text : Bytes) : Bytes :=
  (text.dropWhile (· == space)).takeWhile (· ≠ space)

def afterField (text : Bytes) : Bytes :=
  (text.dropWhile (· == space)).dropWhile (· ≠ space)

def word (text : Bytes) : Bytes :=
  (text.dropWhile isSpace).takeWhile fun c => !isSpace c

def NoSpace (text : Bytes) : Prop :=
  ∀ c ∈ text, isSpace c = false

theorem field_split (text : Bytes) : text.dropWhile (· == space) = field text ++ afterField text :=
  (List.takeWhile_append_dropWhile).symm

theorem after_field_head (text : Bytes) : afterField text = [] ∨ ∃ rest, afterField text = space :: rest := by
  cases shape : afterField text with
  | nil => exact .inl rfl
  | cons c rest =>
    have head := List.head?_dropWhile_not (· ≠ space) (text.dropWhile (· == space))
    rw [show (text.dropWhile (· == space)).dropWhile (· ≠ space) = c :: rest from shape] at head
    simp only [List.head?_cons] at head
    exact .inr ⟨rest, by simpa using head⟩

theorem drop_spaces (text : Bytes) : text.dropWhile isSpace = (text.dropWhile (· == space)).dropWhile isSpace := by
  conv_lhs => rw [← @List.takeWhile_append_dropWhile _ (· == space) text]
  refine List.dropWhile_append_of_pos fun c inside => ?_
  have same := List.mem_takeWhile_imp inside
  rw [beq_iff_eq] at same
  rw [same]
  decide

variable {line text value : Bytes} {n : Nat} {request : Request}

theorem field_plain (some_ : field text ≠ []) (plain : NoSpace (field text)) :
    text.dropWhile isSpace = field text ++ afterField text ∧ word text = field text := by
  have start : text.dropWhile isSpace = field text ++ afterField text := by
    rw [drop_spaces, field_split]
    cases shape : field text with
    | nil => exact absurd shape some_
    | cons c rest =>
      have head := plain c (by rw [shape]; exact List.mem_cons_self)
      rw [List.cons_append, List.dropWhile_cons, head, if_neg (by decide)]
  refine ⟨start, ?_⟩
  have all : ∀ c ∈ field text, (!isSpace c) = true := fun c inside => by rw [plain c inside]; rfl
  rw [word, start, List.takeWhile_append_of_pos all]
  rcases after_field_head text with none_ | ⟨rest, some'⟩
  · rw [none_, List.takeWhile_nil, List.append_nil]
  · rw [some', List.takeWhile_cons, if_neg (by decide), List.append_nil]

theorem field_empty (none_ : field text = []) : word text = [] := by
  have left := field_split text
  rw [none_, List.nil_append] at left
  rcases after_field_head text with empty | ⟨rest, some_⟩
  · rw [empty] at left
    rw [word, drop_spaces, left]
    rfl
  · have head := List.head?_dropWhile_not (· == space) text
    rw [left, some_] at head
    cases head

theorem scan_word_some {width : Nat} {found rest : Bytes} (scanned : scanWord width text = some (found, rest)) :
    found = (word text).take width ∧ rest = (text.dropWhile isSpace).drop found.length ∧ found ≠ [] := by
  unfold scanWord at scanned
  dsimp only at scanned
  split_ifs at scanned with empty
  cases scanned
  exact ⟨rfl, rfl, empty⟩

theorem word_no_space (text : Bytes) : NoSpace (word text) := by
  intro c inside
  have := List.mem_takeWhile_imp inside
  simpa using this

theorem field_no_space (text : Bytes) : space ∉ field text := by
  intro inside
  have := List.mem_takeWhile_imp inside
  simp at this

theorem split_query_cases (target : Bytes) (short : target.length ≤ 255) :
    target = (splitQuery target).1 ++ mark :: (splitQuery target).2 ∨
      mark ∉ target ∧ (splitQuery target).1 = target ∧ (splitQuery target).2 = [] := by
  have whole := @List.takeWhile_append_dropWhile _ (· ≠ mark) target
  cases shape : target.dropWhile (· ≠ mark) with
  | nil =>
    rw [shape, List.append_nil] at whole
    refine .inr ⟨fun inside => ?_, whole, ?_⟩
    · rw [← whole] at inside
      simpa using List.mem_takeWhile_imp inside
    · unfold splitQuery
      dsimp only
      rw [shape]
      rfl
  | cons c rest =>
    have head := List.head?_dropWhile_not (· ≠ mark) target
    rw [shape, List.head?_cons] at head
    have same : c = mark := by simpa using head
    rw [shape, same] at whole
    have size := congrArg List.length whole
    rw [List.length_append, List.length_cons] at size
    refine .inl ?_
    unfold splitQuery
    dsimp only
    rw [shape, List.drop_one, List.tail_cons, List.take_of_length_le (by omega)]
    exact whole.symm

def LineKept (line method path query : Bytes) : Prop :=
  method ++ space :: (path ++ mark :: query) = field line ++ space :: field (afterField line) ∨
    query = [] ∧ method ++ space :: path = field line ++ space :: field (afterField line)

structure PlainLine (line : Bytes) : Prop where
  method : NoSpace (field line)
  methodShort : (field line).length ≤ 7
  target : NoSpace (field (afterField line))
  targetShort : (field (afterField line)).length ≤ 255 ∨
    ∃ path, field (afterField line) = path ++ [mark] ∧ path.length = 255 ∧ mark ∉ path

theorem cut_at_space {a b c d : Bytes} (left : space ∉ a) (right : space ∉ c) (same : a ++ space :: b = c ++ space :: d) :
    a = c ∧ b = d := by
  induction a generalizing c with
  | nil =>
    cases c with
    | nil => exact ⟨rfl, (List.cons.inj same).2⟩
    | cons x c => exact absurd (by rw [(List.cons.inj same).1]; exact List.mem_cons_self) right
  | cons y a ih =>
    cases c with
    | nil => exact absurd (by rw [← (List.cons.inj same).1]; exact List.mem_cons_self) left
    | cons x c =>
      obtain ⟨first, rest⟩ := List.cons.inj same
      obtain ⟨front, back⟩ := ih (fun inside => left (List.mem_cons_of_mem _ inside))
        (fun inside => right (List.mem_cons_of_mem _ inside)) rest
      exact ⟨by rw [first, front], back⟩

theorem scan_line_some {method target : Bytes} (scanned : scanRequestLine line = some (method, target)) :
    method = (word line).take 7 ∧ method ≠ [] ∧
      target = (word ((line.dropWhile isSpace).drop method.length)).take 255 ∧ target ≠ [] := by
  unfold scanRequestLine at scanned
  obtain ⟨⟨found, rest⟩, first, scanned⟩ := Option.bind_eq_some_iff.mp scanned
  obtain ⟨⟨found', rest'⟩, second, same⟩ := Option.map_eq_some_iff.mp scanned
  cases same
  obtain ⟨left, over_, some_⟩ := scan_word_some first
  obtain ⟨right, _, some'⟩ := scan_word_some second
  rw [over_] at right
  exact ⟨left, some_, right, some'⟩

theorem scanned_line {method target : Bytes} (scanned : scanRequestLine line = some (method, target)) :
    LineKept line method (splitQuery target).1 (splitQuery target).2 ↔ PlainLine line := by
  obtain ⟨method_, methodSome, target_, targetSome⟩ := scan_line_some scanned
  have short : target.length ≤ 255 := by
    rw [target_, List.length_take]
    omega
  have plain : NoSpace target := fun c inside => word_no_space _ c (List.mem_of_mem_take (target_ ▸ inside))
  have methodPlain : NoSpace method := fun c inside => word_no_space _ c (List.mem_of_mem_take (method_ ▸ inside))
  have methodShort : method.length ≤ 7 := by
    rw [method_, List.length_take]
    omega
  -- With its first field read as the method, the line goes on behind that field.
  have behind (same : method = field line) : target = (word (afterField line)).take 255 := by
    obtain ⟨start, _⟩ := @field_plain line (same ▸ methodSome) (same ▸ methodPlain)
    rw [start, same, List.drop_left] at target_
    exact target_
  constructor
  · intro kept
    have fields : method = field line ∧
        ((splitQuery target).1 ++ mark :: (splitQuery target).2 = field (afterField line) ∨
          (splitQuery target).2 = [] ∧ (splitQuery target).1 = field (afterField line)) := by
      have clean : space ∉ method := fun inside => absurd (methodPlain _ inside) (by decide)
      rcases kept with with_ | ⟨none_, without⟩
      · obtain ⟨front, back⟩ := cut_at_space clean (field_no_space line) with_
        exact ⟨front, .inl back⟩
      · obtain ⟨front, back⟩ := cut_at_space clean (field_no_space line) without
        exact ⟨front, .inr ⟨none_, back⟩⟩
    obtain ⟨front, back⟩ := fields
    have seen := behind front
    have same : target = field (afterField line) ∨
        field (afterField line) = target ++ [mark] ∧ mark ∉ target := by
      rcases split_query_cases target short with marked | ⟨unmarked, path, query⟩
      · rcases back with with_ | ⟨none_, without⟩
        · exact .inl (marked.trans with_)
        · -- The mark of an empty query would have been read with the field.
          exfalso
          rw [none_, without] at marked
          by_cases empty : field (afterField line) = []
          · rw [seen, field_empty empty] at targetSome
            exact targetSome rfl
          · have clean : NoSpace (field (afterField line)) := fun c inside =>
              plain c (by rw [marked]; exact List.mem_append_left _ inside)
            rw [(field_plain empty clean).2] at seen
            have long := congrArg List.length marked
            rw [seen, List.length_append, List.length_take, List.length_singleton] at long
            omega
      · rw [path, query] at back
        rcases back with with_ | ⟨_, without⟩
        · exact .inr ⟨with_.symm, unmarked⟩
        · exact .inl without
    rcases same with same | ⟨marked, unmarked⟩
    · exact ⟨front ▸ methodPlain, front ▸ methodShort, same ▸ plain, .inl (same ▸ short)⟩
    · have clean : NoSpace (field (afterField line)) := by
        intro c inside
        rw [marked] at inside
        rcases List.mem_append.mp inside with left | right
        · exact plain c left
        · rw [List.mem_singleton.mp right]
          decide
      refine ⟨front ▸ methodPlain, front ▸ methodShort, clean, .inr ⟨target, marked, ?_, unmarked⟩⟩
      have some_ : field (afterField line) ≠ [] := by
        rw [marked]
        simp
      rw [(field_plain some_ clean).2, marked] at seen
      have size := congrArg List.length seen
      rw [List.length_take, List.length_append, List.length_singleton] at size
      omega
  · rintro ⟨first, firstShort, second, secondShort⟩
    have someFirst : field line ≠ [] := by
      intro none_
      rw [method_, field_empty none_] at methodSome
      exact methodSome rfl
    have front : method = field line := by
      rw [method_, (field_plain someFirst first).2, List.take_of_length_le firstShort]
    have seen := behind front
    have someSecond : field (afterField line) ≠ [] := by
      intro none_
      rw [seen, field_empty none_] at targetSome
      exact targetSome rfl
    rw [(field_plain someSecond second).2] at seen
    rcases secondShort with most | ⟨path, marked, size, unmarked⟩
    · rw [List.take_of_length_le most] at seen
      rcases split_query_cases target short with marked | ⟨_, path, query⟩
      · exact .inl (by rw [← marked, front, seen])
      · exact .inr ⟨query, by rw [path, front, seen]⟩
    · rw [marked, List.take_left' size] at seen
      rcases split_query_cases target short with marked' | ⟨_, path', query⟩
      · exact absurd (by rw [← seen, marked']; simp) unmarked
      · exact .inl (by rw [path', query, front, seen, marked])

def isBlank (c : UInt8) : Bool :=
  c == 0x20 || c == 0x09

def trimBlanks (text : Bytes) : Bytes :=
  (skipBlanks text).rdropWhile isBlank

structure Digits (value : Bytes) (n : Nat) : Prop where
  some_ : trimBlanks value ≠ []
  digits : ∀ c ∈ trimBlanks value, isDigit c = true
  number : digitsValue (trimBlanks value) = n

def leadingDigits (value : Bytes) : Bytes :=
  (skipBlanks value).takeWhile isDigit

structure PlainValue (value : Bytes) : Prop where
  start : ∀ c ∈ (skipBlanks value).head?, c ≠ 0x2d ∧ c ≠ 0x2b ∧ isSpace c = false
  behind : ∀ c ∈ (skipBlanks value).dropWhile isDigit, isBlank c = true

def ReadAs (value : Bytes) (n : Nat) : Prop :=
  n ≤ maxAttachmentBody ∧ ∃ tail, strtoull (skipBlanks value) = some (n, tail)

theorem blank_not_digit {c : UInt8} (blank : isBlank c = true) : isDigit c = false := by
  unfold isBlank at blank
  simp only [Bool.or_eq_true, beq_iff_eq] at blank
  rcases blank with rfl | rfl <;> decide

theorem digit_not_blank {c : UInt8} (digit : isDigit c = true) : isBlank c = false := by
  by_contra blank
  rw [Bool.not_eq_false] at blank
  cases digit.symm.trans (blank_not_digit blank)

theorem digits_then_blanks {digits blanks : Bytes} (some_ : digits ≠ []) (all : ∀ c ∈ digits, isDigit c = true)
    (rest : ∀ c ∈ blanks, isBlank c = true) :
    (digits ++ blanks).rdropWhile isBlank = digits ∧ (digits ++ blanks).takeWhile isDigit = digits ∧
      (digits ++ blanks).dropWhile isDigit = blanks := by
  have stop : ∀ c ∈ blanks.head?, isDigit c = false := fun c head => blank_not_digit (rest c (List.mem_of_mem_head? head))
  obtain ⟨taken, left⟩ := digits_end all stop
  refine ⟨?_, taken, left⟩
  unfold List.rdropWhile
  rw [List.reverse_append, List.dropWhile_append_of_pos fun c inside => rest c (List.mem_reverse.mp inside)]
  cases shape : digits.reverse with
  | nil => exact absurd (List.reverse_eq_nil_iff.mp shape) some_
  | cons c back =>
    have digit := all c (List.mem_reverse.mp (by rw [shape]; exact List.mem_cons_self))
    rw [List.dropWhile_cons, digit_not_blank digit, if_neg (by decide), ← shape, List.reverse_reverse]

theorem read_as_plain (read : ReadAs value n) (plain : PlainValue value) :
    Digits value n ∧ digitsValue (leadingDigits value) = n := by
  obtain ⟨most, tail, read⟩ := read
  have numeral_ : numeral (skipBlanks value) =
      { negative := false, digits := leadingDigits value, rest := (skipBlanks value).dropWhile isDigit } := by
    cases shape : skipBlanks value with
    | nil =>
      rw [leadingDigits, shape]
      rfl
    | cons c rest =>
      obtain ⟨minus, plus, space_⟩ := plain.start c (by rw [shape]; rfl)
      rw [leadingDigits, shape]
      simp [numeral, List.dropWhile_cons, space_, minus, plus]
  unfold strtoull at read
  rw [numeral_] at read
  dsimp only at read
  obtain ⟨none_, read⟩ := past_guard read fun same => by cases same
  by_cases large : digitsValue (leadingDigits value) ≥ 2 ^ 64
  · rw [if_pos large] at read
    cases read
    exact absurd most (by decide)
  · rw [if_neg large] at read
    cases read
    have all : ∀ c ∈ leadingDigits value, isDigit c = true := fun c inside => List.mem_takeWhile_imp inside
    have whole : leadingDigits value ++ (skipBlanks value).dropWhile isDigit = skipBlanks value := List.takeWhile_append_dropWhile
    obtain ⟨trimmed, _, _⟩ := digits_then_blanks none_ all plain.behind
    rw [whole] at trimmed
    have same : trimBlanks value = leadingDigits value := trimmed
    exact ⟨⟨by rw [same]; exact none_, by rw [same]; exact all, by rw [same]; rfl⟩, rfl⟩

theorem digits_plain (digits : Digits value n) : PlainValue value ∧ digitsValue (leadingDigits value) = n := by
  obtain ⟨some_, all, number⟩ := digits
  have whole : trimBlanks value ++ (skipBlanks value).rtakeWhile isBlank = skipBlanks value :=
    List.rdropWhile_append_rtakeWhile
  have blank : ∀ c ∈ (skipBlanks value).rtakeWhile isBlank, isBlank c = true := fun c inside =>
    List.mem_rtakeWhile_imp inside
  obtain ⟨_, taken, left⟩ := digits_then_blanks some_ all blank
  rw [whole] at taken left
  refine ⟨⟨fun c head => ?_, fun c inside => ?_⟩, by rw [leadingDigits, taken]; exact number⟩
  · have first : c ∈ trimBlanks value := by
      rw [← whole] at head
      cases shape : trimBlanks value with
      | nil => exact absurd shape some_
      | cons d rest =>
        rw [shape] at head
        cases head
        exact List.mem_cons_self
    obtain ⟨space_, minus, plus⟩ := digit_not_space (all c first)
    exact ⟨minus, plus, space_⟩
  · rw [left] at inside
    exact List.mem_rtakeWhile_imp inside

def fieldLines (header : Bytes) : Nat → Nat → List Bytes
  | 0, _ => []
  | fuel + 1, cursor =>
    if cursor < header.length - 2 then
      match find crlf (header.drop cursor) with
      | none => []
      | some next => (header.drop cursor).take next :: fieldLines header fuel (cursor + next + 2)
    else []

def lengthsIn (lines : List Bytes) : List Bytes :=
  lines.filterMap (named "Content-Length:")

theorem parse_length_read (parsed : parseLength request value = some n) : ReadAs value n := by
  unfold parseLength at parsed
  cases read : strtoull (skipBlanks value) with
  | none =>
    rw [read] at parsed
    cases parsed
  | some pair =>
    obtain ⟨m, tail⟩ := pair
    rw [read] at parsed
    dsimp only at parsed
    have bound : (if isAttachment request then maxAttachmentBody else maxBody) ≤ maxAttachmentBody := by
      split_ifs <;> decide
    obtain ⟨refused, parsed⟩ := past_guard parsed nofun
    cases parsed
    rw [Bool.or_eq_true, not_or, decide_eq_true_eq] at refused
    exact ⟨Nat.le_trans (Nat.le_of_not_lt refused.2) bound, tail, read⟩

theorem header_line_kept {head head' : Head} (read : headerLine line head = .ok head') :
    head'.request.method = head.request.method ∧ head'.request.path = head.request.path ∧
      head'.request.query = head.request.query ∧
      match named "Content-Length:" line with
      | some value => ReadAs value head'.contentLength
      | none => head'.contentLength = head.contentLength := by
  unfold headerLine at read
  dsimp only at read
  cases length : named "Content-Length:" line with
  | some value =>
    rw [length] at read
    dsimp only at read
    cases parsed : parseLength head.request value with
    | none =>
      rw [parsed] at read
      cases read
    | some n =>
      rw [parsed] at read
      cases read
      exact ⟨rfl, rfl, rfl, parse_length_read parsed⟩
  | none =>
    rw [length] at read
    dsimp only at read
    repeat' split at read
    all_goals first
      | (cases read; exact ⟨rfl, rfl, rfl, rfl⟩)
      | cases read

theorem header_lines_kept {bytes : Bytes} (header : Header bytes) (fuel : Nat) :
    ∀ (cursor : Nat) (head head' : Head), headerLines bytes bytes.length fuel cursor head = .ok head' →
      head'.request.method = head.request.method ∧ head'.request.path = head.request.path ∧
        head'.request.query = head.request.query ∧
        (∀ value ∈ lengthsIn (fieldLines bytes fuel cursor), ∃ n, ReadAs value n) ∧
        match (lengthsIn (fieldLines bytes fuel cursor)).getLast? with
        | some value => ReadAs value head'.contentLength
        | none => head'.contentLength = head.contentLength := by
  induction fuel with
  | zero =>
    intro cursor head head' read
    cases read
    exact ⟨rfl, rfl, rfl, fun value inside => (by cases inside), rfl⟩
  | succ fuel ih =>
    intro cursor head head' read
    rw [headerLines] at read
    rw [fieldLines]
    have text : (0 : UInt8) ∉ bytes.drop cursor := fun zero_ => header.text (List.mem_of_mem_drop zero_)
    rw [cstr_self text] at read
    by_cases inside : cursor < bytes.length - 2
    · rw [if_pos inside] at read ⊢
      cases found : find crlf (bytes.drop cursor) with
      | none =>
        rw [found] at read
        cases read
        exact ⟨rfl, rfl, rfl, fun value inside => (by cases inside), rfl⟩
      | some next =>
        rw [found] at read
        dsimp only at read
        cases line : headerLine ((bytes.drop cursor).take next) head with
        | error status =>
          rw [line] at read
          cases read
        | ok middle =>
          rw [line] at read
          dsimp only at read ⊢
          obtain ⟨method, path, query, first⟩ := header_line_kept line
          obtain ⟨method', path', query', all, last⟩ := ih _ _ _ read
          refine ⟨method'.trans method, path'.trans path, query'.trans query, ?_⟩
          unfold lengthsIn at all last ⊢
          cases length : named "Content-Length:" ((bytes.drop cursor).take next) with
          | none =>
            rw [length] at first
            rw [List.filterMap_cons_none length]
            dsimp only at first
            rw [first] at last
            exact ⟨all, last⟩
          | some value =>
            rw [length] at first
            rw [List.filterMap_cons_some length, List.getLast?_cons]
            refine ⟨fun other inside => ?_, ?_⟩
            · rcases List.mem_cons.mp inside with rfl | later
              · exact ⟨_, first⟩
              · exact all other later
            · cases tail : (List.filterMap (named "Content-Length:") (fieldLines bytes fuel (cursor + next + 2))).getLast? with
              | none =>
                rw [tail] at last
                dsimp only at last
                rw [last]
                exact first
              | some final =>
                rw [tail] at last
                exact last
    · rw [if_neg inside] at read ⊢
      cases read
      exact ⟨rfl, rfl, rfl, fun value inside => (by cases inside), rfl⟩

def headerOf (stream : Bytes) : Bytes :=
  match find crlf2 stream with
  | some end_ => stream.take (end_ + 4)
  | none => []

def lineEndOf (stream : Bytes) : Nat :=
  (find crlf (headerOf stream)).getD 0

def requestLine (stream : Bytes) : Bytes :=
  (headerOf stream).take (lineEndOf stream)

def lengthValues (stream : Bytes) : List Bytes :=
  lengthsIn (fieldLines (headerOf stream) (headerOf stream).length (lineEndOf stream + 2))

structure Lossless (stream : Bytes) (request : Request) (body : Body) : Prop where
  line : LineKept (requestLine stream) request.method request.path request.query
  length : ∀ value ∈ lengthValues stream, Digits value body.bytes.length

structure PlainHeader (stream : Bytes) : Prop where
  line : PlainLine (requestLine stream)
  values : ∀ value ∈ lengthValues stream, PlainValue value
  agree : ∀ value ∈ lengthValues stream, ∀ other ∈ lengthValues stream,
    digitsValue (leadingDigits value) = digitsValue (leadingDigits other)

theorem accepted_head {env : Env} {stream : Bytes} {body : Body} (accepted : requestOf env stream = .accepted request body) :
    Header (headerOf stream) ∧ ∃ head, parseHead (headerOf stream) (headerOf stream).length = .ok head ∧
      head.request = request ∧ body.bytes.length = head.contentLength := by
  obtain ⟨end_, head, found, parsed, same, room, rfl⟩ := request_body accepted
  have here : headerOf stream = stream.take (end_ + 4) := by
    unfold headerOf
    rw [found]
  unfold requestOf at accepted
  obtain ⟨granted, accepted⟩ := past_guard accepted nofun
  cases found' : find crlf2 (cstr (stream.take maxHeader)) with
  | none =>
    rw [found'] at accepted
    cases accepted
  | some end' =>
    have start : cstr (stream.take maxHeader) <+: stream := (cstr_start _).trans (List.take_prefix _ _)
    cases found.symm.trans (find_longer start found')
    obtain ⟨header, size⟩ := header_of_found found'
    rw [here]
    refine ⟨header, head, by rw [size]; exact parsed, same, ?_⟩
    split_ifs
    · exact List.length_take_of_le room
    · exact List.length_take_of_le room

theorem accepted_line {env : Env} {stream : Bytes} {body : Body} (accepted : requestOf env stream = .accepted request body) :
    ∃ target, scanRequestLine (requestLine stream) = some (request.method, target) ∧
      splitQuery target = (request.path, request.query) ∧ (∀ value ∈ lengthValues stream, ∃ n, ReadAs value n) ∧
      ∀ value ∈ (lengthValues stream).getLast?, ReadAs value body.bytes.length := by
  obtain ⟨header, head, parsed, rfl, size⟩ := accepted_head accepted
  unfold parseHead at parsed
  rw [cstr_self header.text] at parsed
  cases found : find crlf (headerOf stream) with
  | none =>
    rw [found] at parsed
    cases parsed
  | some lineEnd =>
    rw [found] at parsed
    dsimp only at parsed
    have at_ : lineEndOf stream = lineEnd := by
      rw [lineEndOf, found]
      rfl
    have line : requestLine stream = (headerOf stream).take lineEnd := by rw [requestLine, at_]
    rw [line]
    cases scanned : scanRequestLine ((headerOf stream).take lineEnd) with
    | none =>
      rw [scanned] at parsed
      cases parsed
    | some words =>
      obtain ⟨method, target⟩ := words
      rw [scanned] at parsed
      dsimp only at parsed
      obtain ⟨method', path', query', all, last⟩ := header_lines_kept header _ _ _ _ parsed
      rw [← at_] at all last
      refine ⟨target, by rw [method']; rfl, by rw [path', query']; rfl, all, fun value final => ?_⟩
      have final' : (lengthsIn (fieldLines (headerOf stream) (headerOf stream).length (lineEndOf stream + 2))).getLast? =
        some value := final
      rw [final'] at last
      rw [size]
      exact last

-- What is accepted is what was sent if and only if the header is plain.
theorem request_lossless {env : Env} {stream : Bytes} (split : Split stream) {request : Request} {body : Body}
    (accepted : samosaHttpReadRequest env split.chunks = .accepted request body) :
    Lossless stream request body ↔ PlainHeader stream := by
  rw [read_request_stream env split] at accepted
  obtain ⟨target, scanned, parts, read, last⟩ := accepted_line accepted
  have line := scanned_line scanned
  rw [parts] at line
  constructor
  · rintro ⟨kept, digits⟩
    refine ⟨line.mp kept, fun value inside => (digits_plain (digits value inside)).1, fun value inside other inside' => ?_⟩
    rw [(digits_plain (digits value inside)).2, (digits_plain (digits other inside')).2]
  · rintro ⟨plain, values, agree⟩
    refine ⟨line.mpr plain, fun value inside => ?_⟩
    obtain ⟨final, final_⟩ : ∃ final, (lengthValues stream).getLast? = some final :=
      Option.ne_none_iff_exists'.mp fun none_ => by
        rw [List.getLast?_eq_none_iff.mp none_] at inside
        cases inside
    have inside' : final ∈ lengthValues stream := List.mem_of_getLast? final_
    obtain ⟨n, readAs⟩ := read value inside
    obtain ⟨digits, number⟩ := read_as_plain readAs (values value inside)
    obtain ⟨_, number'⟩ := read_as_plain (last final final_) (values final inside')
    rw [← number', ← agree value inside final inside', number]
    exact digits

theorem request_lossless_small :
    Lossless (utf8 "GET /x?y HTTP/1.1\r\nContent-Length: 2 \r\n\r\nab")
        (emptyRequest (utf8 "GET") (utf8 "/x") (utf8 "y")) (.memory (utf8 "ab")) ↔
      PlainHeader (utf8 "GET /x?y HTTP/1.1\r\nContent-Length: 2 \r\n\r\nab") :=
  @request_lossless grants _
    ⟨[utf8 "GET /x?y HTTP/1.1\r\nContent-Length: 2 \r\n\r\nab"], by decide, by decide⟩ _ _ (by decide +kernel)

-- A method of eight letters is cut, and its last letter becomes the path. A negative length wraps around.
theorem method_shifted :
    (∃ request body, samosaHttpReadRequest grants [utf8 "PROPFIND /x HTTP/1.1\r\n\r\n"] = .accepted request body ∧
      request.method = utf8 "PROPFIN" ∧ request.path = utf8 "D" ∧
      ¬Lossless (utf8 "PROPFIND /x HTTP/1.1\r\n\r\n") request body) ∧
    ∃ request body, samosaHttpReadRequest grants
        [utf8 "POST /x HTTP/1.1\r\nContent-Length: -18446744073709551615\r\n\r\na"] = .accepted request body ∧
      body.bytes.length = 1 ∧
      ¬Lossless (utf8 "POST /x HTTP/1.1\r\nContent-Length: -18446744073709551615\r\n\r\na") request body := by
  constructor
  · refine ⟨emptyRequest (utf8 "PROPFIN") (utf8 "D") [], .memory [], by decide +kernel, rfl, rfl, fun lossless => ?_⟩
    rcases lossless.line with kept | ⟨_, kept⟩
    · exact absurd kept (by decide +kernel)
    · exact absurd kept (by decide +kernel)
  · refine ⟨emptyRequest (utf8 "POST") (utf8 "/x") [], .memory (utf8 "a"), by decide +kernel, rfl, fun lossless => ?_⟩
    have sent : utf8 " -18446744073709551615" ∈
        lengthValues (utf8 "POST /x HTTP/1.1\r\nContent-Length: -18446744073709551615\r\n\r\na") := by decide +kernel
    have digits := (lossless.length _ sent).digits 0x2d (by decide +kernel)
    exact absurd digits (by decide)

end SamosaChat.Http
