import SamosaChat.Lib.Decimal
import Mathlib.Data.List.TakeDrop

set_option autoImplicit false

namespace SamosaChat.Ranges

open Utf8 Text Decimal

def maxAttachmentBody : Nat :=
  4 * 2 ^ 30

def wrap (n : Int) : Nat :=
  (n % 2 ^ 64).toNat

def hyphen : UInt8 :=
  0x2d

def comma : UInt8 :=
  0x2c

-- strtoull over a whole text: None is an error, no digits, or anything behind them. A sign is read too.
def parseNumber (text : Bytes) : Option Nat :=
  let read := numeral text
  if 2 ^ 64 ≤ digitsValue read.digits ∨ read.digits = [] ∨ read.rest ≠ [] then none
  else some (wrap read.value)

def fields (range : Bytes) : Option (Bytes × Bytes) :=
  if !(utf8 "bytes=").isPrefixOf range || (range.drop 6).contains comma then none
  else
    let spec := range.drop 6
    if hyphen ∉ spec then none else some (spec.takeWhile (· ≠ hyphen), (spec.dropWhile (· ≠ hyphen)).drop 1)

inductive Verdict where
  | unsatisfied
  | sends (partly : Bool) (first last : Nat)
deriving DecidableEq

def suffixSpan (size : Nat) (after : Bytes) : Verdict :=
  match parseNumber after with
  | none => .unsatisfied
  | some suffix =>
    if suffix = 0 ∨ size = 0 then .unsatisfied
    else
      let suffix := if suffix > size then size else suffix
      .sends true (wrap (size - suffix)) (wrap (size - 1))

def firstSpan (size : Nat) (before after : Bytes) : Verdict :=
  if before.length ≥ 32 then .unsatisfied
  else
    match parseNumber before with
    | none => .unsatisfied
    | some first =>
      if first ≥ size then .unsatisfied
      else if after ≠ [] then
        match parseNumber after with
        | none => .unsatisfied
        | some last =>
          if last < first then .unsatisfied
          else .sends true first (if last ≥ size then wrap (size - 1) else last)
      else .sends true first (wrap (size - 1))

def rangeVerdict (size : Nat) (range : Bytes) : Verdict :=
  if range = [] then .sends false 0 (if size = 0 then 0 else wrap (size - 1))
  else
    match fields range with
    | none => .unsatisfied
    | some (before, after) => if before = [] then suffixSpan size after else firstSpan size before after

structure Answer where
  status : Nat
  contentLength : Nat
  extra : Bytes
  first : Nat
deriving DecidableEq

def snprintf (cap : Nat) (text : Bytes) : Bytes :=
  text.take (cap - 1)

def contentRange (first last size : Nat) : Bytes :=
  utf8 "Accept-Ranges: bytes\r\nContent-Range: bytes " ++ decimal first ++ [hyphen] ++ decimal last ++ utf8 "/" ++
    decimal size ++ utf8 "\r\n"

def unsatisfiedRange (size : Nat) : Bytes :=
  utf8 "Content-Range: bytes */" ++ decimal size ++ utf8 "\r\n"

def answer (size : Nat) (range : Bytes) : Option Answer :=
  if size > maxAttachmentBody then none
  else
    match rangeVerdict size range with
    | .unsatisfied => some { status := 416, contentLength := 0, extra := snprintf 96 (unsatisfiedRange size), first := 0 }
    | .sends partly first last =>
      some
        { status := if partly then 206 else 200
          contentLength := if size = 0 then 0 else wrap (last - first + 1)
          extra := if partly then snprintf 192 (contentRange first last size) else utf8 "Accept-Ranges: bytes\r\n"
          first := first }

inductive Pread where
  | interrupted
  | failed
  | got (count : Nat) (sent : Bool)

def streamLoop (content : Bytes) (first length : Nat) : List Pread → Nat → Bytes × Option Bool
  | [], sent => if length ≤ sent then ([], some true) else ([], none)
  | read :: reads, sent =>
    if length ≤ sent then ([], some true)
    else
      match read with
      | .interrupted => streamLoop content first length reads sent
      | .failed => ([], some false)
      | .got count ok =>
        let want := min (wrap (length - sent)) 65536
        let got := (content.drop (wrap (first + sent))).take (min count want)
        if got = [] ∨ ok = false then ([], some false)
        else
          let (later, result) := streamLoop content first length reads (sent + got.length)
          (got ++ later, result)

def stream (content : Bytes) (answer : Answer) (reads : List Pread) : Bytes × Option Bool :=
  streamLoop content answer.first answer.contentLength reads 0

section Grammar

inductive Asked where
  | onward (first : Nat)
  | between (first last : Nat)
  | suffix (length : Nat)

def Plain (text : Bytes) : Prop :=
  text ≠ [] ∧ ∀ c ∈ text, isDigit c = true

inductive Says : Bytes → Asked → Prop where
  | onward {first : Bytes} (digits : Plain first) : Says (utf8 "bytes=" ++ (first ++ [hyphen])) (.onward (digitsValue first))
  | between {first last : Bytes} (digits : Plain first) (digits' : Plain last) :
      Says (utf8 "bytes=" ++ (first ++ hyphen :: last)) (.between (digitsValue first) (digitsValue last))
  | suffix {length : Bytes} (digits : Plain length) : Says (utf8 "bytes=" ++ hyphen :: length) (.suffix (digitsValue length))

def Satisfiable (size : Nat) : Asked → Prop
  | .onward first => first < size
  | .between first last => first < size ∧ first ≤ last
  | .suffix length => 0 < length ∧ 0 < size

def bounds (size : Nat) : Asked → Nat × Nat
  | .onward first => (first, size - 1)
  | .between first last => (first, min last (size - 1))
  | .suffix length => (size - min length size, size - 1)

def partialAnswer (size first last : Nat) : Answer :=
  { status := 206, contentLength := last - first + 1, extra := contentRange first last size, first := first }

def fullAnswer (size : Nat) : Answer :=
  { status := 200, contentLength := size, extra := utf8 "Accept-Ranges: bytes\r\n", first := 0 }

def refusal (size : Nat) : Answer :=
  { status := 416, contentLength := 0, extra := unsatisfiedRange size, first := 0 }

def slice (content : Bytes) (answer : Answer) : Bytes :=
  (content.drop answer.first).take answer.contentLength

def Serving (length : Nat) (reads : List Pread) : Prop :=
  (∀ read ∈ reads, read = .interrupted ∨ ∃ count, 0 < count ∧ read = .got count true) ∧
    length ≤ reads.countP fun read => match read with | .got _ _ => true | _ => false

-- Nothing but the slice is sent, all of it when the function returns success, which it does when the reads are served.
def SendsExactly (content : Bytes) (answer : Answer) : Prop :=
  ∀ reads, (stream content answer reads).1 <+: slice content answer ∧
    ((stream content answer reads).2 = some true → (stream content answer reads).1 = slice content answer) ∧
    (Serving answer.contentLength reads → (stream content answer reads).2 = some true)

-- 206 for the ranges of the grammar that can be satisfied, the whole file or a refusal for anything else.
def Follows (content range : Bytes) : Prop :=
  ∃ a, answer content.length range = some a ∧ SendsExactly content a ∧
    ((∃ asked, Says range asked ∧ Satisfiable content.length asked ∧
        a = partialAnswer content.length (bounds content.length asked).1 (bounds content.length asked).2) ∨
      (∀ asked, Says range asked → ¬Satisfiable content.length asked) ∧ (a = refusal content.length ∨ a = fullAnswer content.length))

def Misread (size : Nat) (range : Bytes) : Prop :=
  ∃ before after, fields range = some (before, after) ∧
    (before = [] ∧ ¬Plain after ∧ (∃ suffix, parseNumber after = some suffix ∧ 0 < suffix) ∧ 0 < size ∨
      before ≠ [] ∧ before.length < 32 ∧ ¬(Plain before ∧ (after = [] ∨ Plain after)) ∧
        ∃ first, parseNumber before = some first ∧ first < size ∧ (after = [] ∨ ∃ last, parseNumber after = some last ∧ first ≤ last))

def Overlong (size : Nat) (range : Bytes) : Prop :=
  ∃ before after, fields range = some (before, after) ∧
    (before = [] ∧ Plain after ∧ 2 ^ 64 ≤ digitsValue after ∧ 0 < size ∨
      Plain before ∧ digitsValue before < size ∧
        (32 ≤ before.length ∧ (after = [] ∨ Plain after ∧ digitsValue before ≤ digitsValue after) ∨
          Plain after ∧ 2 ^ 64 ≤ digitsValue after))

end Grammar

section Numbers

variable {text : Bytes}

theorem wrap_of {i : Int} {n : Nat} (same : i = n) (small : n < 2 ^ 64) : wrap i = n := by
  subst same
  unfold wrap
  omega

theorem parse_plain (plain : Plain text) :
    parseNumber text = if 2 ^ 64 ≤ digitsValue text then none else some (digitsValue text) := by
  have read := @numeral_digits _ [] plain.1 plain.2 fun c inside => by cases inside
  rw [List.append_nil] at read
  rw [parseNumber, read]
  simp only [plain.1, Numeral.value, Bool.false_eq_true, if_false, ne_eq, not_true_eq_false, or_false]
  split_ifs with large
  · rfl
  · rw [wrap_of rfl (Nat.lt_of_not_le large)]

theorem parse_plain_some {n : Nat} (plain : Plain text) (read : parseNumber text = some n) : n = digitsValue text := by
  rw [parse_plain plain] at read
  split_ifs at read
  exact (Option.some.inj read).symm

theorem parse_plain_small {n : Nat} (plain : Plain text) (read : parseNumber text = some n) : digitsValue text < 2 ^ 64 := by
  rw [parse_plain plain] at read
  by_contra large
  rw [if_pos (Nat.le_of_not_lt large)] at read
  cases read

theorem parse_plain_none (plain : Plain text) (read : parseNumber text = none) : 2 ^ 64 ≤ digitsValue text := by
  rw [parse_plain plain] at read
  by_contra small
  rw [if_neg small] at read
  cases read

end Numbers

section Fields

variable {range before after : Bytes}

theorem unit_text : (utf8 "bytes=").length = 6 ∧ utf8 "bytes=" ≠ [] ∧ isDigit hyphen = false ∧ isDigit comma = false ∧ hyphen ≠ comma := by
  decide

theorem spec_parts (apart : hyphen ∉ before) : (before ++ hyphen :: after).takeWhile (· ≠ hyphen) = before ∧
    ((before ++ hyphen :: after).dropWhile (· ≠ hyphen)).drop 1 = after := by
  have pass : ∀ c ∈ before, decide (c ≠ hyphen) = true := by
    intro c inside
    rw [decide_eq_true_eq]
    rintro rfl
    exact apart inside
  rw [List.takeWhile_append_of_pos pass, List.dropWhile_append_of_pos pass, List.takeWhile_cons_of_neg (by simp),
    List.dropWhile_cons_of_neg (by simp), List.append_nil]
  exact ⟨rfl, rfl⟩

theorem fields_cut (apart : hyphen ∉ before) (single : comma ∉ before ++ hyphen :: after) :
    fields (utf8 "bytes=" ++ (before ++ hyphen :: after)) = some (before, after) := by
  have spec : (utf8 "bytes=" ++ (before ++ hyphen :: after)).drop 6 = before ++ hyphen :: after := by
    rw [← unit_text.1, List.drop_left]
  have lead : (utf8 "bytes=").isPrefixOf (utf8 "bytes=" ++ (before ++ hyphen :: after)) = true :=
    List.isPrefixOf_iff_prefix.mpr (List.prefix_append _ _)
  have dash : hyphen ∈ before ++ hyphen :: after := by simp
  obtain ⟨front, back⟩ := @spec_parts before after apart
  rw [fields, spec, lead, if_neg (by simpa using single)]
  simp only
  rw [if_neg (not_not.mpr dash), front, back]

theorem fields_shape (cut : fields range = some (before, after)) : range = utf8 "bytes=" ++ (before ++ hyphen :: after) ∧
    hyphen ∉ before := by
  rw [fields] at cut
  obtain ⟨bad, cut⟩ := past_guard cut nofun
  simp only at cut
  obtain ⟨none_, cut⟩ := past_guard cut nofun
  have lead : utf8 "bytes=" <+: range := by
    rw [Bool.or_eq_true, not_or, Bool.not_eq_true', Bool.not_eq_false] at bad
    exact List.isPrefixOf_iff_prefix.mp bad.1
  obtain ⟨spec, rfl⟩ := lead
  obtain ⟨front, back, shape, apart⟩ := List.eq_append_cons_of_mem (not_not.mp none_)
  obtain ⟨taken, left⟩ := @spec_parts front back apart
  rw [shape, taken, left] at cut
  rw [← unit_text.1, List.drop_left] at shape
  cases cut
  exact ⟨by rw [shape], apart⟩

theorem plain_apart {text : Bytes} (plain : Plain text) : hyphen ∉ text ∧ comma ∉ text := by
  obtain ⟨_, _, dash, list, _⟩ := unit_text
  refine ⟨fun inside => ?_, fun inside => ?_⟩
  · cases dash.symm.trans (plain.2 _ inside)
  · cases list.symm.trans (plain.2 _ inside)

theorem says_fields {asked : Asked} : Says range asked ↔ ∃ before after, fields range = some (before, after) ∧
    (before = [] ∧ Plain after ∧ asked = .suffix (digitsValue after) ∨
      Plain before ∧ (after = [] ∧ asked = .onward (digitsValue before) ∨
        Plain after ∧ asked = .between (digitsValue before) (digitsValue after))) := by
  obtain ⟨_, _, _, _, other⟩ := unit_text
  constructor
  · rintro (digits | ⟨digits, digits'⟩ | digits)
    · obtain ⟨dash, list⟩ := plain_apart digits
      exact ⟨_, [], fields_cut dash (by simpa using ⟨list, Ne.symm other⟩), .inr ⟨digits, .inl ⟨rfl, rfl⟩⟩⟩
    · obtain ⟨dash, list⟩ := plain_apart digits
      obtain ⟨_, list'⟩ := plain_apart digits'
      exact ⟨_, _, fields_cut dash (by simpa using ⟨list, Ne.symm other, list'⟩), .inr ⟨digits, .inr ⟨digits', rfl⟩⟩⟩
    · obtain ⟨_, list⟩ := plain_apart digits
      exact ⟨[], _, fields_cut List.not_mem_nil (List.not_mem_cons_of_ne_of_not_mem (Ne.symm other) list), .inl ⟨rfl, digits, rfl⟩⟩
  · rintro ⟨before, after, cut, said⟩
    obtain ⟨rfl, _⟩ := fields_shape cut
    rcases said with ⟨rfl, digits, rfl⟩ | ⟨digits, ⟨rfl, rfl⟩ | ⟨digits', rfl⟩⟩
    · exact .suffix digits
    · exact .onward digits
    · exact .between digits digits'

end Fields

section Stream

variable {content : Bytes} {first length : Nat}

theorem stream_loop_sends (inside : first + length ≤ content.length) (small : content.length < 2 ^ 64) (reads : List Pread) :
    ∀ sent : Nat, sent ≤ length →
      (streamLoop content first length reads sent).1 <+: (content.drop (first + sent)).take (length - sent) ∧
        ((streamLoop content first length reads sent).2 = some true →
          (streamLoop content first length reads sent).1 = (content.drop (first + sent)).take (length - sent)) := by
  induction reads with
  | nil =>
    intro sent most
    rw [streamLoop]
    by_cases done : length ≤ sent
    · rw [if_pos done, Nat.sub_eq_zero_of_le done, List.take_zero]
      exact ⟨List.nil_prefix, fun _ => rfl⟩
    · rw [if_neg done]
      exact ⟨List.nil_prefix, fun ends => by cases ends⟩
  | cons read reads ih =>
    intro sent most
    rw [streamLoop.eq_def]
    dsimp only
    by_cases done : length ≤ sent
    · rw [if_pos done, Nat.sub_eq_zero_of_le done, List.take_zero]
      exact ⟨List.nil_prefix, fun _ => rfl⟩
    rw [if_neg done]
    cases read with
    | interrupted => exact ih sent most
    | failed => exact ⟨List.nil_prefix, fun ends => by cases ends⟩
    | got count ok =>
      have offset : wrap (first + sent) = first + sent := wrap_of (by omega) (by omega)
      have left : wrap (length - sent) = length - sent := wrap_of (by omega) (by omega)
      simp only [offset, left]
      generalize size : min count (min (length - sent) 65536) = want
      by_cases bad : (content.drop (first + sent)).take want = [] ∨ ok = false
      · rw [if_pos bad]
        exact ⟨List.nil_prefix, fun ends => by cases ends⟩
      · rw [if_neg bad]
        have read : ((content.drop (first + sent)).take want).length = want := by
          rw [List.length_take, List.length_drop]
          omega
        obtain ⟨before, whole⟩ := ih (sent + want) (by omega)
        have next : (content.drop (first + sent)).take (length - sent) = (content.drop (first + sent)).take want ++
            (content.drop (first + (sent + want))).take (length - (sent + want)) := by
          rw [show length - sent = want + (length - (sent + want)) by omega, List.take_add, List.drop_drop, Nat.add_assoc]
        rw [read, next]
        exact ⟨(List.prefix_append_right_inj _).mpr before, fun ends => congrArg _ (whole ends)⟩

theorem stream_loop_served (inside : first + length ≤ content.length) (small : content.length < 2 ^ 64) (reads : List Pread) :
    ∀ sent : Nat, sent ≤ length → Serving (length - sent) reads → (streamLoop content first length reads sent).2 = some true := by
  induction reads with
  | nil =>
    intro sent most serving
    have none_ : length ≤ sent := by
      have enough := serving.2
      rw [List.countP_nil] at enough
      omega
    rw [streamLoop, if_pos none_]
  | cons read reads ih =>
    intro sent most serving
    rw [streamLoop.eq_def]
    dsimp only
    by_cases done : length ≤ sent
    · rw [if_pos done]
    rw [if_neg done]
    obtain ⟨here, later⟩ := List.forall_mem_cons.mp serving.1
    have enough := serving.2
    rw [List.countP_cons] at enough
    rcases here with rfl | ⟨count, some_, rfl⟩
    · exact ih sent most ⟨later, by simpa using enough⟩
    · have offset : wrap (first + sent) = first + sent := wrap_of (by omega) (by omega)
      have left : wrap (length - sent) = length - sent := wrap_of (by omega) (by omega)
      simp only [offset, left]
      have read : ((content.drop (first + sent)).take (min count (min (length - sent) 65536))).length =
          min count (min (length - sent) 65536) := by
        rw [List.length_take, List.length_drop]
        omega
      rw [if_neg (by rw [← List.length_eq_zero_iff, read]; simp; omega), read]
      exact ih _ (by omega) ⟨later, by simp only [if_true] at enough; omega⟩

theorem sends_exactly {a : Answer} (inside : a.first + a.contentLength ≤ content.length) (small : content.length < 2 ^ 64) :
    SendsExactly content a := by
  intro reads
  obtain ⟨part, whole⟩ := stream_loop_sends inside small reads 0 (Nat.zero_le _)
  exact ⟨part, whole, fun serving => stream_loop_served inside small reads 0 (Nat.zero_le _) serving⟩

end Stream

section Answers

variable {size first last : Nat} {content range before after : Bytes}

theorem text_lengths : (utf8 "Accept-Ranges: bytes\r\nContent-Range: bytes ").length = 43 ∧ (utf8 "/").length = 1 ∧
    (utf8 "\r\n").length = 2 ∧ (utf8 "Content-Range: bytes */").length = 23 := by
  decide +kernel

theorem content_range_fits (low : first < 2 ^ 64) (high : last < 2 ^ 64) (small : size < 2 ^ 64) :
    snprintf 192 (contentRange first last size) = contentRange first last size := by
  have digits {n : Nat} (less : n < 2 ^ 64) : (decimal n).length ≤ 20 := decimal_length (by omega) (by omega)
  have one := digits low
  have two := digits high
  have three := digits small
  obtain ⟨lead, slash, line_end, _⟩ := text_lengths
  refine List.take_of_length_le ?_
  simp only [contentRange, List.length_append, List.length_singleton, lead, slash, line_end]
  omega

theorem unsatisfied_range_fits (small : size < 2 ^ 64) : snprintf 96 (unsatisfiedRange size) = unsatisfiedRange size := by
  have digits : (decimal size).length ≤ 20 := decimal_length (by omega) (by omega)
  obtain ⟨_, _, line_end, lead⟩ := text_lengths
  refine List.take_of_length_le ?_
  simp only [unsatisfiedRange, List.length_append, lead, line_end]
  omega

theorem answer_unsatisfied (fits : size ≤ maxAttachmentBody) (refused : rangeVerdict size range = .unsatisfied) :
    answer size range = some (refusal size) := by
  have most : maxAttachmentBody = 2 ^ 32 := rfl
  rw [answer, if_neg (Nat.not_lt_of_le fits), refused]
  simp only
  rw [unsatisfied_range_fits (by omega)]
  rfl

theorem answer_whole (fits : size ≤ maxAttachmentBody) : answer size [] = some (fullAnswer size) := by
  have most : maxAttachmentBody = 2 ^ 32 := rfl
  rw [answer, if_neg (Nat.not_lt_of_le fits), rangeVerdict, if_pos rfl]
  simp only [Bool.false_eq_true, if_false, fullAnswer]
  by_cases empty : size = 0
  · rw [if_pos empty, empty]
  · have last : wrap (size - 1) = size - 1 := wrap_of (by omega) (by omega)
    have length : wrap (((size - 1 : Nat) : Int) - ((0 : Nat) : Int) + 1) = size := wrap_of (by omega) (by omega)
    rw [if_neg empty, if_neg empty, last, length]

theorem answer_span (fits : size ≤ maxAttachmentBody) (sends : rangeVerdict size range = .sends true first last)
    (ordered : first ≤ last) (inside : last < size) : answer size range = some (partialAnswer size first last) := by
  have most : maxAttachmentBody = 2 ^ 32 := rfl
  have length : wrap (last - first + 1) = last - first + 1 := wrap_of (by omega) (by omega)
  rw [answer, if_neg (Nat.not_lt_of_le fits), sends]
  simp only [if_true]
  rw [if_neg (by omega), length, content_range_fits (by omega) (by omega) (by omega)]
  rfl

theorem follows_refused {a : Answer} (fits : content.length ≤ maxAttachmentBody) (answers : answer content.length range = some a)
    (shape : a = refusal content.length ∨ a = fullAnswer content.length) :
    Follows content range ↔ ∀ asked, Says range asked → ¬Satisfiable content.length asked := by
  have most : maxAttachmentBody = 2 ^ 32 := rfl
  constructor
  · rintro ⟨b, again, _, ⟨asked, _, _, partly⟩ | ⟨none_, _⟩⟩
    · rw [answers] at again
      cases again
      have status := congrArg Answer.status partly
      rcases shape with rfl | rfl
      · cases status
      · cases status
    · exact none_
  · intro none_
    refine ⟨a, answers, sends_exactly ?_ (by omega), .inr ⟨none_, shape⟩⟩
    rcases shape with rfl | rfl
    · exact Nat.zero_le _
    · exact Nat.le_of_eq (Nat.zero_add _)

theorem follows_span (fits : content.length ≤ maxAttachmentBody)
    (answers : answer content.length range = some (partialAnswer content.length first last)) (ordered : first ≤ last)
    (inside : last < content.length) : (Follows content range → ∃ asked, Says range asked) ∧
      ∀ asked, Says range asked → Satisfiable content.length asked → bounds content.length asked = (first, last) →
        Follows content range := by
  have most : maxAttachmentBody = 2 ^ 32 := rfl
  constructor
  · rintro ⟨b, again, _, ⟨asked, says_, _⟩ | ⟨_, whole⟩⟩
    · exact ⟨asked, says_⟩
    · rw [answers] at again
      cases again
      rcases whole with shape | shape
      · cases congrArg Answer.status shape
      · cases congrArg Answer.status shape
  · intro asked said able same
    have exact_ : SendsExactly content (partialAnswer content.length first last) := by
      refine sends_exactly ?_ (by omega)
      change first + (last - first + 1) ≤ content.length
      omega
    exact ⟨_, answers, exact_, .inl ⟨asked, said, able, by rw [same]⟩⟩

theorem verdict_fields (cut : fields range = some (before, after)) :
    rangeVerdict size range = if before = [] then suffixSpan size after else firstSpan size before after := by
  have some_ : range ≠ [] := by
    rw [(fields_shape cut).1]
    simp [unit_text.2.1]
  rw [rangeVerdict, if_neg some_, cut]

end Answers

section Main

variable {content range before after : Bytes} {size : Nat}

theorem says_suffix (cut : fields range = some ([], after)) (asked : Asked) :
    Says range asked ↔ Plain after ∧ asked = .suffix (digitsValue after) := by
  rw [says_fields, cut]
  constructor
  · rintro ⟨b, a, same, said⟩
    cases same
    rcases said with ⟨_, plain, same⟩ | ⟨plain, _⟩
    · exact ⟨plain, same⟩
    · exact absurd rfl plain.1
  · rintro ⟨plain, same⟩
    exact ⟨[], after, rfl, .inl ⟨rfl, plain, same⟩⟩

theorem says_first (some_ : before ≠ []) (cut : fields range = some (before, after)) (asked : Asked) :
    Says range asked ↔ Plain before ∧ (after = [] ∧ asked = .onward (digitsValue before) ∨
      Plain after ∧ asked = .between (digitsValue before) (digitsValue after)) := by
  rw [says_fields, cut]
  constructor
  · rintro ⟨b, a, same, said⟩
    cases same
    rcases said with ⟨empty, _⟩ | said
    · exact absurd empty some_
    · exact said
  · exact fun said => ⟨before, after, rfl, .inr said⟩

theorem misread_suffix (cut : fields range = some ([], after)) : Misread size range ↔
    ¬Plain after ∧ (∃ suffix, parseNumber after = some suffix ∧ 0 < suffix) ∧ 0 < size := by
  rw [Misread, cut]
  constructor
  · rintro ⟨b, a, same, ⟨_, bad⟩ | ⟨some_, _⟩⟩
    · cases same
      exact bad
    · cases same
      exact absurd rfl some_
  · exact fun bad => ⟨[], after, rfl, .inl ⟨rfl, bad⟩⟩

theorem misread_first (some_ : before ≠ []) (cut : fields range = some (before, after)) : Misread size range ↔
    before.length < 32 ∧ ¬(Plain before ∧ (after = [] ∨ Plain after)) ∧ ∃ first, parseNumber before = some first ∧
      first < size ∧ (after = [] ∨ ∃ last, parseNumber after = some last ∧ first ≤ last) := by
  rw [Misread, cut]
  constructor
  · rintro ⟨b, a, same, ⟨empty, _⟩ | ⟨_, bad⟩⟩
    · cases same
      exact absurd empty some_
    · cases same
      exact bad
  · exact fun bad => ⟨before, after, rfl, .inr ⟨some_, bad⟩⟩

theorem overlong_suffix (cut : fields range = some ([], after)) : Overlong size range ↔
    Plain after ∧ 2 ^ 64 ≤ digitsValue after ∧ 0 < size := by
  rw [Overlong, cut]
  constructor
  · rintro ⟨b, a, same, ⟨_, long⟩ | ⟨plain, _⟩⟩
    · cases same
      exact long
    · cases same
      exact absurd rfl plain.1
  · exact fun long => ⟨[], after, rfl, .inl ⟨rfl, long⟩⟩

theorem overlong_first (some_ : before ≠ []) (cut : fields range = some (before, after)) : Overlong size range ↔
    Plain before ∧ digitsValue before < size ∧
      (32 ≤ before.length ∧ (after = [] ∨ Plain after ∧ digitsValue before ≤ digitsValue after) ∨
        Plain after ∧ 2 ^ 64 ≤ digitsValue after) := by
  rw [Overlong, cut]
  constructor
  · rintro ⟨b, a, same, ⟨empty, _⟩ | long⟩
    · cases same
      exact absurd empty some_
    · cases same
      exact long
  · exact fun long => ⟨before, after, rfl, .inr long⟩

def Good (size : Nat) (range : Bytes) : Prop :=
  ∃ asked, Says range asked ∧ Satisfiable size asked

theorem good_suffix (cut : fields range = some ([], after)) : Good size range ↔
    Plain after ∧ 0 < digitsValue after ∧ 0 < size := by
  constructor
  · rintro ⟨asked, said, able⟩
    obtain ⟨plain, rfl⟩ := (says_suffix cut asked).mp said
    exact ⟨plain, able⟩
  · rintro ⟨plain, able⟩
    exact ⟨_, (says_suffix cut _).mpr ⟨plain, rfl⟩, able⟩

theorem good_first (some_ : before ≠ []) (cut : fields range = some (before, after)) : Good size range ↔
    Plain before ∧ digitsValue before < size ∧ (after = [] ∨ Plain after ∧ digitsValue before ≤ digitsValue after) := by
  constructor
  · rintro ⟨asked, said, able⟩
    obtain ⟨plain, ⟨empty, rfl⟩ | ⟨plain', rfl⟩⟩ := (says_first some_ cut asked).mp said
    · exact ⟨plain, able, .inl empty⟩
    · exact ⟨plain, able.1, .inr ⟨plain', able.2⟩⟩
  · rintro ⟨plain, low, empty | ⟨plain', ordered⟩⟩
    · exact ⟨_, (says_first some_ cut _).mpr ⟨plain, .inl ⟨empty, rfl⟩⟩, low⟩
    · exact ⟨_, (says_first some_ cut _).mpr ⟨plain, .inr ⟨plain', rfl⟩⟩, low, ordered⟩

theorem refused_iff (fits : content.length ≤ maxAttachmentBody) (verdict : rangeVerdict content.length range = .unsatisfied)
    (straight : ¬Misread content.length range) (refused : Good content.length range ↔ Overlong content.length range) :
    Follows content range ↔ ¬Misread content.length range ∧ ¬Overlong content.length range := by
  rw [follows_refused fits (answer_unsatisfied fits verdict) (.inl rfl), ← refused]
  exact ⟨fun none_ => ⟨straight, fun ⟨asked, said, able⟩ => none_ asked said able⟩,
    fun both asked said able => both.2 ⟨asked, said, able⟩⟩

theorem span_iff {first last : Nat} (fits : content.length ≤ maxAttachmentBody)
    (verdict : rangeVerdict content.length range = .sends true first last) (ordered : first ≤ last) (inside : last < content.length)
    (short : ¬Overlong content.length range) (bad : Misread content.length range → ∀ asked, ¬Says range asked)
    (asks : ¬Misread content.length range →
      ∃ asked, Says range asked ∧ Satisfiable content.length asked ∧ bounds content.length asked = (first, last)) :
    Follows content range ↔ ¬Misread content.length range ∧ ¬Overlong content.length range := by
  obtain ⟨only, meets⟩ := follows_span fits (answer_span fits verdict ordered inside) ordered inside
  constructor
  · intro follows
    obtain ⟨asked, said⟩ := only follows
    exact ⟨fun misread => bad misread asked said, short⟩
  · rintro ⟨straight, _⟩
    obtain ⟨asked, said, able, same⟩ := asks straight
    exact meets asked said able same

theorem suffix_follows (fits : content.length ≤ maxAttachmentBody) (cut : fields range = some ([], after)) :
    Follows content range ↔ ¬Misread content.length range ∧ ¬Overlong content.length range := by
  have most : maxAttachmentBody = 2 ^ 32 := rfl
  have verdict := @verdict_fields content.length _ _ _ cut
  rw [if_pos rfl, suffixSpan] at verdict
  cases read : parseNumber after with
  | none =>
    rw [read] at verdict
    refine refused_iff fits verdict ?_ ?_
    · rw [misread_suffix cut, read]
      rintro ⟨_, ⟨_, same, _⟩, _⟩
      cases same
    · rw [good_suffix cut, overlong_suffix cut]
      constructor
      · rintro ⟨plain, _, some_⟩
        exact ⟨plain, parse_plain_none plain read, some_⟩
      · rintro ⟨plain, large, some_⟩
        exact ⟨plain, by omega, some_⟩
  | some suffix =>
    rw [read] at verdict
    simp only at verdict
    have short : ¬Overlong content.length range := by
      rw [overlong_suffix cut]
      rintro ⟨plain, large, _⟩
      exact absurd large (Nat.not_le_of_lt (parse_plain_small plain read))
    by_cases none_ : suffix = 0 ∨ content.length = 0
    · rw [if_pos none_] at verdict
      refine refused_iff fits verdict ?_ ?_
      · rw [misread_suffix cut, read]
        rintro ⟨_, ⟨n, same, some_⟩, full⟩
        cases same
        omega
      · refine iff_of_false ?_ short
        rw [good_suffix cut]
        rintro ⟨plain, some_, full⟩
        have same := parse_plain_some plain read
        omega
    · rw [if_neg none_] at verdict
      have start : wrap ((content.length : Int) - ((if suffix > content.length then content.length else suffix : Nat) : Int)) =
          content.length - min suffix content.length := by
        refine wrap_of ?_ (by omega)
        split_ifs <;> omega
      have stop : wrap ((content.length : Int) - 1) = content.length - 1 := wrap_of (by omega) (by omega)
      rw [start, stop] at verdict
      refine span_iff fits verdict (by omega) (by omega) short ?_ ?_
      · rw [misread_suffix cut]
        rintro ⟨crooked, _⟩ asked said
        exact crooked ((says_suffix cut asked).mp said).1
      · intro straight
        have plain : Plain after := by
          by_contra crooked
          exact straight ((misread_suffix cut).mpr ⟨crooked, ⟨suffix, read, by omega⟩, by omega⟩)
        have same := parse_plain_some plain read
        refine ⟨_, (says_suffix cut _).mpr ⟨plain, rfl⟩, ⟨by omega, by omega⟩, ?_⟩
        rw [bounds, same]

theorem between_follows {first : Nat} (fits : content.length ≤ maxAttachmentBody) (some_ : before ≠ []) (open_ : after ≠ [])
    (cut : fields range = some (before, after)) (long : ¬before.length ≥ 32) (read : parseNumber before = some first)
    (low : ¬first ≥ content.length) (verdict : rangeVerdict content.length range = match parseNumber after with
      | none => .unsatisfied
      | some last =>
        if last < first then .unsatisfied
        else .sends true first (if last ≥ content.length then content.length - 1 else last)) :
    Follows content range ↔ ¬Misread content.length range ∧ ¬Overlong content.length range := by
  have most : maxAttachmentBody = 2 ^ 32 := rfl
  cases read' : parseNumber after with
  | none =>
    rw [read'] at verdict
    refine refused_iff fits verdict ?_ ?_
    · rw [misread_first some_ cut, read']
      rintro ⟨_, _, _, _, _, empty | ⟨_, same, _⟩⟩
      · exact open_ empty
      · cases same
    · rw [good_first some_ cut, overlong_first some_ cut]
      constructor
      · rintro ⟨plain, low, empty | ⟨plain', _⟩⟩
        · exact absurd empty open_
        · exact ⟨plain, low, .inr ⟨plain', parse_plain_none plain' read'⟩⟩
      · rintro ⟨plain, low, ⟨many, _⟩ | ⟨plain', large⟩⟩
        · exact absurd many long
        · exact ⟨plain, low, .inr ⟨plain', by omega⟩⟩
  | some last =>
    rw [read'] at verdict
    simp only at verdict
    have short : ¬Overlong content.length range := by
      rw [overlong_first some_ cut]
      rintro ⟨_, _, ⟨many, _⟩ | ⟨plain', large⟩⟩
      · exact long many
      · exact absurd large (Nat.not_le_of_lt (parse_plain_small plain' read'))
    by_cases crossed : last < first
    · rw [if_pos crossed] at verdict
      refine refused_iff fits verdict ?_ (iff_of_false ?_ short)
      · rw [misread_first some_ cut, read, read']
        rintro ⟨_, _, n, same, _, empty | ⟨m, same', ordered⟩⟩
        · exact open_ empty
        · cases same
          cases same'
          omega
      · rw [good_first some_ cut]
        rintro ⟨plain, _, empty | ⟨plain', ordered⟩⟩
        · exact open_ empty
        · have same := parse_plain_some plain read
          have same' := parse_plain_some plain' read'
          omega
    · rw [if_neg crossed] at verdict
      have cut_ : (if last ≥ content.length then content.length - 1 else last) = min last (content.length - 1) := by
        split_ifs <;> omega
      rw [cut_] at verdict
      refine span_iff fits verdict (by omega) (by omega) short ?_ ?_
      · rw [misread_first some_ cut]
        rintro ⟨_, crooked, _⟩ asked said
        obtain ⟨plain, ⟨empty, _⟩ | ⟨plain', _⟩⟩ := (says_first some_ cut asked).mp said
        · exact open_ empty
        · exact crooked ⟨plain, .inr plain'⟩
      · intro straight
        obtain ⟨plain, plain'⟩ : Plain before ∧ Plain after := by
          by_contra crooked
          refine straight ((misread_first some_ cut).mpr ⟨Nat.lt_of_not_le long, ?_, first, read, by omega, ?_⟩)
          · exact fun both => crooked ⟨both.1, both.2.resolve_left open_⟩
          · exact .inr ⟨last, read', by omega⟩
        have same := parse_plain_some plain read
        have same' := parse_plain_some plain' read'
        refine ⟨_, (says_first some_ cut _).mpr ⟨plain, .inr ⟨plain', rfl⟩⟩, ⟨by omega, by omega⟩, ?_⟩
        rw [bounds, same, same']

theorem onward_follows {first : Nat} (fits : content.length ≤ maxAttachmentBody) (some_ : before ≠ []) (empty : after = [])
    (cut : fields range = some (before, after)) (long : ¬before.length ≥ 32) (read : parseNumber before = some first)
    (low : ¬first ≥ content.length) (verdict : rangeVerdict content.length range = .sends true first (content.length - 1)) :
    Follows content range ↔ ¬Misread content.length range ∧ ¬Overlong content.length range := by
  have short : ¬Overlong content.length range := by
    rw [overlong_first some_ cut]
    rintro ⟨_, _, ⟨many, _⟩ | ⟨plain', _⟩⟩
    · exact long many
    · exact plain'.1 empty
  refine span_iff fits verdict (by omega) (by omega) short ?_ ?_
  · rw [misread_first some_ cut]
    rintro ⟨_, crooked, _⟩ asked said
    exact crooked ⟨((says_first some_ cut asked).mp said).1, .inl empty⟩
  · intro straight
    have plain : Plain before := by
      by_contra crooked
      refine straight ((misread_first some_ cut).mpr ⟨Nat.lt_of_not_le long, ?_, first, read, by omega, .inl empty⟩)
      exact fun both => crooked both.1
    have same := parse_plain_some plain read
    refine ⟨_, (says_first some_ cut _).mpr ⟨plain, .inl ⟨empty, rfl⟩⟩, ?_, ?_⟩
    · change digitsValue before < content.length
      omega
    · rw [bounds, same]

theorem first_follows (fits : content.length ≤ maxAttachmentBody) (some_ : before ≠ []) (cut : fields range = some (before, after)) :
    Follows content range ↔ ¬Misread content.length range ∧ ¬Overlong content.length range := by
  have most : maxAttachmentBody = 2 ^ 32 := rfl
  have verdict := @verdict_fields content.length _ _ _ cut
  rw [if_neg some_, firstSpan] at verdict
  by_cases long : before.length ≥ 32
  · rw [if_pos long] at verdict
    refine refused_iff fits verdict ?_ ?_
    · rw [misread_first some_ cut]
      exact fun bad => absurd bad.1 (Nat.not_lt_of_le long)
    · rw [good_first some_ cut, overlong_first some_ cut]
      constructor
      · rintro ⟨plain, low, rest⟩
        exact ⟨plain, low, .inl ⟨long, rest⟩⟩
      · rintro ⟨plain, low, ⟨_, rest⟩ | ⟨plain', large⟩⟩
        · exact ⟨plain, low, rest⟩
        · exact ⟨plain, low, .inr ⟨plain', by omega⟩⟩
  rw [if_neg long] at verdict
  cases read : parseNumber before with
  | none =>
    rw [read] at verdict
    have large (plain : Plain before) : ¬digitsValue before < content.length := by
      have huge := parse_plain_none plain read
      omega
    refine refused_iff fits verdict ?_ (iff_of_false ?_ ?_)
    · rw [misread_first some_ cut, read]
      rintro ⟨_, _, _, same, _⟩
      cases same
    · rw [good_first some_ cut]
      exact fun good => large good.1 good.2.1
    · rw [overlong_first some_ cut]
      exact fun long => large long.1 long.2.1
  | some first =>
    rw [read] at verdict
    simp only at verdict
    by_cases behind : first ≥ content.length
    · rw [if_pos behind] at verdict
      have large (plain : Plain before) : ¬digitsValue before < content.length := by
        have same := parse_plain_some plain read
        omega
      refine refused_iff fits verdict ?_ (iff_of_false ?_ ?_)
      · rw [misread_first some_ cut, read]
        rintro ⟨_, _, n, same, low, _⟩
        cases same
        omega
      · rw [good_first some_ cut]
        exact fun good => large good.1 good.2.1
      · rw [overlong_first some_ cut]
        exact fun long => large long.1 long.2.1
    rw [if_neg behind] at verdict
    have stop : wrap ((content.length : Int) - 1) = content.length - 1 := wrap_of (by omega) (by omega)
    rw [stop] at verdict
    by_cases open_ : after ≠ []
    · rw [if_pos open_] at verdict
      exact between_follows fits some_ open_ cut long read behind verdict
    · rw [if_neg open_] at verdict
      exact onward_follows fits some_ (not_not.mp open_) cut long read behind verdict

-- A file that is not too large is served by the grammar just when the range has no other numerals that are read, and no longer
-- ones than are read.
theorem range_follows_iff (content range : Bytes) :
    Follows content range ↔
      content.length ≤ maxAttachmentBody ∧ ¬Misread content.length range ∧ ¬Overlong content.length range := by
  by_cases fits : content.length ≤ maxAttachmentBody
  · have whole (none_ : fields range = none) (a : Answer) (answers : answer content.length range = some a)
        (shape : a = refusal content.length ∨ a = fullAnswer content.length) :
        Follows content range ↔ ¬Misread content.length range ∧ ¬Overlong content.length range := by
      rw [follows_refused fits answers shape]
      refine iff_of_true (fun asked said => ?_) ⟨?_, ?_⟩
      · obtain ⟨before, after, cut, _⟩ := says_fields.mp said
        cases none_.symm.trans cut
      · rintro ⟨before, after, cut, _⟩
        cases none_.symm.trans cut
      · rintro ⟨before, after, cut, _⟩
        cases none_.symm.trans cut
    rw [and_iff_right fits]
    cases cut : fields range with
    | none =>
      by_cases empty : range = []
      · exact whole cut _ (by rw [empty]; exact answer_whole fits) (.inr rfl)
      · have verdict : rangeVerdict content.length range = .unsatisfied := by rw [rangeVerdict, if_neg empty, cut]
        exact whole cut _ (answer_unsatisfied fits verdict) (.inl rfl)
    | some pair =>
      obtain ⟨before, after⟩ := pair
      by_cases empty : before = []
      · rw [empty] at cut
        exact suffix_follows fits cut
      · exact first_follows fits empty cut
  · refine iff_of_false ?_ fun both => fits both.1
    rintro ⟨a, answers, _⟩
    rw [answer, if_pos (Nat.lt_of_not_le fits)] at answers
    cases answers

-- The numeral behind the dash has a sign of its own.
theorem signed_suffix : ¬Follows (utf8 "samosa") (utf8 "bytes=--1") := by
  have run : answer (utf8 "samosa").length (utf8 "bytes=--1") = some (partialAnswer 6 0 5) ∧
      fields (utf8 "bytes=--1") = some ([], utf8 "-1") ∧ isDigit 0x2d = false ∧ 0x2d ∈ utf8 "-1" := by
    decide +kernel
  obtain ⟨answers, cut, sign, inside⟩ := run
  have crooked : ¬Plain (utf8 "-1") := fun plain => by cases sign.symm.trans (plain.2 _ inside)
  rintro ⟨a, again, _, ⟨asked, said, _⟩ | ⟨_, whole⟩⟩
  · exact crooked ((says_suffix cut asked).mp said).1
  · rw [answers] at again
    cases again
    rcases whole with same | same
    · cases congrArg Answer.status same
    · cases congrArg Answer.status same

end Main

end SamosaChat.Ranges
