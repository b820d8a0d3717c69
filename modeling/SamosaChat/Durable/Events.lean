import SamosaChat.Durable.AppendLine
import SamosaChat.Json.Unescaped

set_option autoImplicit false

namespace SamosaChat.Durable

open Utf8 Text Decimal Binary64 Json

structure Utc where
  year : Int
  month : Nat
  day : Nat
  hour : Nat
  minute : Nat
  second : Nat

def twoDigits (n : Nat) : Bytes :=
  if n < 10 then 0x30 :: decimal n else decimal n

def Utc.text (now : Utc) : Bytes :=
  decimalInt now.year ++ 0x2d :: twoDigits now.month ++ 0x2d :: twoDigits now.day ++ 0x54 :: twoDigits now.hour ++
    0x3a :: twoDigits now.minute ++ 0x3a :: twoDigits now.second ++ [0x5a]

-- None is NULL.
structure EventRecord where
  seq : Int
  jobId : Bytes
  kind : Bytes
  state : Bytes
  phase : Bytes
  completed : Option Int
  total : Option Int
  unit : Option Bytes
  currentItem : Option Bytes
  message : Option Bytes

def lineMax : Nat := 2048

-- The next snprintf into what is left of the line. None is what did not fit.
def putPart (line part : Bytes) : Option Bytes :=
  if (line ++ part).length ≥ lineMax then none else some (line ++ part)

def countText : Option Int → Bytes
  | some n => decimalInt n
  | none => utf8 "null"

def durableEventLine (now : Utc) (event : EventRecord) : Option Bytes := do
  let line ← putPart []
    (utf8 "\x7b\"seq\":" ++ decimalInt event.seq ++ utf8 ",\"time\":\"" ++ now.text ++ utf8 "\",\"job_id\":\"" ++ event.jobId ++
      utf8 "\",\"kind\":\"" ++ event.kind ++ utf8 "\",\"state\":\"" ++ event.state ++ utf8 "\",\"phase\":\"" ++ event.phase ++
      utf8 "\",\"completed\":")
  let line ← putPart line (countText event.completed)
  let line ← putPart line (utf8 ",\"total\":")
  let line ← putPart line (countText event.total)
  putPart line
    (utf8 ",\"unit\":\"" ++ event.unit.getD [] ++ utf8 "\",\"current_item\":\"" ++ event.currentItem.getD [] ++
      utf8 "\",\"message\":\"" ++ event.message.getD [] ++ utf8 "\"\x7d\n")

-- What the calls come to: how much a write at an offset takes, none when it fails. One that is interrupted is made again.
structure EventAttempt where
  opened : Bool
  locked : Bool
  takes : Nat → Option Nat
  synced : Bool

def writeEvent (takes : Nat → Option Nat) (line : Bytes) : Nat → Nat → Bytes → Bool × Bytes
  | 0, _, content => (true, content)
  | rounds + 1, written, content =>
    if written < line.length then
      match takes written with
      | none => (false, content)
      | some most =>
        let count := max 1 (min most (line.length - written))
        writeEvent takes line rounds (written + count) (content ++ (line.drop written).take count)
    else (true, content)

def durableEventAppend (attempt : EventAttempt) (now : Utc) (event : EventRecord) (content : Bytes) : Bool × Bytes :=
  match durableEventLine now event with
  | none => (false, content)
  | some line =>
    if attempt.opened = false then (false, content)
    else if attempt.locked = false then (false, content)
    else
      let (ok, content) := writeEvent attempt.takes line line.length 0 content
      (ok && attempt.synced, content)

theorem write_event_whole {takes : Nat → Option Nat} {line : Bytes} (rounds : Nat) {written : Nat} {content after : Bytes}
    (enough : line.length ≤ rounds + written) (wrote : writeEvent takes line rounds written content = (true, after)) :
    after = content ++ line.drop written := by
  induction rounds generalizing written content with
  | zero =>
    cases wrote
    rw [List.drop_of_length_le (by omega), List.append_nil]
  | succ rounds ih =>
    rw [writeEvent] at wrote
    by_cases more : written < line.length
    · rw [if_pos more] at wrote
      cases took : takes written with
      | none =>
        rw [took] at wrote
        cases wrote
      | some most =>
        rw [took] at wrote
        dsimp only at wrote
        rw [ih (by omega) wrote, List.append_assoc, ← List.drop_drop, List.take_append_drop]
    · rw [if_neg more] at wrote
      cases wrote
      rw [List.drop_of_length_le (by omega), List.append_nil]

def countSlot : Option Int → Slot
  | some n => .count n
  | none => .null

def firstMember (event : EventRecord) : Bytes × Slot :=
  (utf8 "seq", .count event.seq)

def moreMembers (now : Utc) (event : EventRecord) : List (Bytes × Slot) :=
  [(utf8 "time", .raw now.text), (utf8 "job_id", .raw event.jobId), (utf8 "kind", .raw event.kind),
    (utf8 "state", .raw event.state), (utf8 "phase", .raw event.phase), (utf8 "completed", countSlot event.completed),
    (utf8 "total", countSlot event.total), (utf8 "unit", .raw (event.unit.getD [])),
    (utf8 "current_item", .raw (event.currentItem.getD [])), (utf8 "message", .raw (event.message.getD []))]

def members (now : Utc) (event : EventRecord) : List (Bytes × Slot) :=
  firstMember event :: moreMembers now event

def eventObject (now : Utc) (event : EventRecord) : Bytes :=
  objectText (firstMember event) (moreMembers now event)

theorem count_text_eq (n : Option Int) : countText n = (countSlot n).text := by
  cases n <;> rfl

theorem put_part_some {line part line' : Bytes} (fits : putPart line part = some line') : line' = line ++ part := by
  unfold putPart at fits
  split_ifs at fits
  cases fits
  rfl

variable {event : EventRecord} {now : Utc}

theorem event_line_eq {line : Bytes} (fits : durableEventLine now event = some line) :
    line = eventObject now event ++ [newline] := by
  simp only [durableEventLine, Option.bind_eq_bind, Option.bind_eq_some_iff] at fits
  obtain ⟨line₁, first, line₂, second, line₃, third, line₄, fourth, fits⟩ := fits
  rw [put_part_some fits, put_part_some fourth, put_part_some third, put_part_some second, put_part_some first, count_text_eq, count_text_eq]
  have seq : utf8 "\x7b\"seq\":" = 0x7b :: 0x22 :: (utf8 "seq" ++ [0x22, 0x3a]) := by decide
  have time : utf8 ",\"time\":\"" = 0x2c :: 0x22 :: (utf8 "time" ++ [0x22, 0x3a, 0x22]) := by decide
  have jobId : utf8 "\",\"job_id\":\"" = 0x22 :: 0x2c :: 0x22 :: (utf8 "job_id" ++ [0x22, 0x3a, 0x22]) := by decide
  have kind : utf8 "\",\"kind\":\"" = 0x22 :: 0x2c :: 0x22 :: (utf8 "kind" ++ [0x22, 0x3a, 0x22]) := by decide
  have state : utf8 "\",\"state\":\"" = 0x22 :: 0x2c :: 0x22 :: (utf8 "state" ++ [0x22, 0x3a, 0x22]) := by decide
  have phase : utf8 "\",\"phase\":\"" = 0x22 :: 0x2c :: 0x22 :: (utf8 "phase" ++ [0x22, 0x3a, 0x22]) := by decide
  have completed : utf8 "\",\"completed\":" = 0x22 :: 0x2c :: 0x22 :: (utf8 "completed" ++ [0x22, 0x3a]) := by decide
  have total : utf8 ",\"total\":" = 0x2c :: 0x22 :: (utf8 "total" ++ [0x22, 0x3a]) := by decide
  have unit : utf8 ",\"unit\":\"" = 0x2c :: 0x22 :: (utf8 "unit" ++ [0x22, 0x3a, 0x22]) := by decide
  have item : utf8 "\",\"current_item\":\"" = 0x22 :: 0x2c :: 0x22 :: (utf8 "current_item" ++ [0x22, 0x3a, 0x22]) := by
    decide
  have message : utf8 "\",\"message\":\"" = 0x22 :: 0x2c :: 0x22 :: (utf8 "message" ++ [0x22, 0x3a, 0x22]) := by decide
  have end_ : utf8 "\"\x7d\n" = [0x22, 0x7d, newline] := by decide
  rw [seq, time, jobId, kind, state, phase, completed, total, unit, item, message, end_]
  simp [eventObject, objectText, firstMember, moreMembers, memberText, tailText, Slot.text]

theorem two_digits_digits (n : Nat) : ∀ c ∈ twoDigits n, isDigit c = true := by
  intro c inside
  unfold twoDigits at inside
  split_ifs at inside
  · rcases List.mem_cons.mp inside with rfl | later
    · rfl
    · exact decimal_digits later
  · exact decimal_digits inside

theorem time_bytes (now : Utc) : ∀ c ∈ now.text, isDigit c = true ∨ c = 0x2d ∨ c = 0x54 ∨ c = 0x3a ∨ c = 0x5a := by
  intro c inside
  have int_ := @decimal_int_bytes now.year c
  have month := two_digits_digits now.month c
  have day := two_digits_digits now.day c
  have hour := two_digits_digits now.hour c
  have minute := two_digits_digits now.minute c
  have second := two_digits_digits now.second c
  simp only [Utc.text, List.append_assoc, List.cons_append, List.mem_append, List.mem_cons, List.not_mem_nil, or_false] at inside
  grind

theorem time_plain (now : Utc) : Plain now.text ∧ Visible now.text := by
  have each : ∀ c ∈ now.text, (c ≠ 0x22 ∧ c ≠ 0x5c) ∧ 0x20 ≤ c.toNat := by
    intro c inside
    rcases time_bytes now c inside with digit | rfl | rfl | rfl | rfl
    · have range := (is_digit_iff c).mp digit
      refine ⟨⟨?_, ?_⟩, by omega⟩
      · rintro rfl
        exact absurd range (by decide)
      · rintro rfl
        exact absurd range (by decide)
    · decide
    · decide
    · decide
    · decide
  exact ⟨fun c inside => (each c inside).1, fun c inside => (each c inside).2⟩

def EventRecord.texts (event : EventRecord) : List Bytes :=
  [event.jobId, event.kind, event.state, event.phase, event.unit.getD [], event.currentItem.getD [], event.message.getD []]

def EventRecord.numbers (event : EventRecord) : List Int :=
  event.seq :: event.completed.toList ++ event.total.toList

def EventRecord.Clean (event : EventRecord) : Prop :=
  ∀ text ∈ event.texts, (0 : UInt8) ∉ text

structure EventRecord.Plain (event : EventRecord) : Prop where
  texts : ∀ text ∈ event.texts, Json.Plain text ∧ newline ∉ text
  numbers : ∀ n ∈ event.numbers, Fits (n.natAbs * one)

def ParsesInto (now : Utc) (event : EventRecord) (body : Bytes) : Prop :=
  newline ∉ body ∧ ∃ fields, FieldsHold (members now event) fields ∧ jsonParse body = .ok (.obj fields, [])

def memberNames : List Bytes :=
  ["seq", "time", "job_id", "kind", "state", "phase", "completed", "total", "unit", "current_item", "message"].map utf8

theorem member_names (now : Utc) (event : EventRecord) : (members now event).map Prod.fst = memberNames :=
  rfl

theorem names_fine {member : Bytes × Slot} (inside : member ∈ members now event) : Name member.1 ∧ Visible member.1 := by
  have fine : ∀ name ∈ memberNames, (∀ c ∈ name, (c ≠ 0x22 ∧ c ≠ 0x5c) ∧ 0x20 ≤ c.toNat) ∧ (0 : UInt8) ∉ name ∧ name ≠ [] ∧
      ∀ c ∈ name.head?, isSpace c = false ∧ c ≠ 0x2c := by decide +kernel
  obtain ⟨each, text, some_, first⟩ := fine member.1 (by rw [← member_names now event]; exact List.mem_map_of_mem inside)
  exact ⟨⟨fun c at_ => (each c at_).1, text, some_, first⟩, fun c at_ => (each c at_).2⟩

theorem members_readable (now : Utc) (event : EventRecord) : (∀ member ∈ members now event, member.2.Readable) ↔
      (∀ text ∈ event.texts, Json.Plain text) ∧ ∀ n ∈ event.numbers, Fits (n.natAbs * one) := by
  have slot (n : Option Int) : (countSlot n).Readable ↔ ∀ m ∈ n.toList, Fits (m.natAbs * one) := by
    cases n with
    | none => exact iff_of_true trivial fun m inside => by cases inside
    | some n => rw [countSlot, count_readable, Option.toList_some, List.forall_mem_singleton]
  have now_ := (time_plain now).1
  simp only [members, firstMember, moreMembers, List.forall_mem_cons, List.not_mem_nil, false_imp_iff, implies_true, and_true,
    slot, EventRecord.texts, EventRecord.numbers, List.forall_mem_append, List.cons_append, raw_readable, count_readable]
  constructor
  · rintro ⟨seq, _, jobId, kind, state, phase, completed, total, unit, item, message⟩
    exact ⟨⟨jobId, kind, state, phase, unit, item, message⟩, seq, completed, total⟩
  · rintro ⟨⟨jobId, kind, state, phase, unit, item, message⟩, seq, completed, total⟩
    exact ⟨seq, now_, jobId, kind, state, phase, completed, total, unit, item, message⟩

theorem members_free {b : UInt8} (control : b.toNat < 0x20) (now : Utc) (event : EventRecord) :
    (∀ member ∈ members now event, member.2.Free b) ↔ ∀ text ∈ event.texts, b ∉ text := by
  have slot (n : Option Int) : (countSlot n).Free b := by
    cases n <;> trivial
  have seq : (Slot.count event.seq).Free b := trivial
  have now_ : b ∉ now.text := fun inside => absurd ((time_plain now).2 b inside) (by omega)
  simp only [members, firstMember, moreMembers, List.forall_mem_cons, List.not_mem_nil, false_imp_iff, implies_true, and_true,
    EventRecord.texts, slot, seq, raw_free, now_, not_false_eq_true, true_and]

theorem members_clean (clean : event.Clean) : ∀ member ∈ members now event, member.2.Clean := by
  intro member inside
  have free := (members_free (b := 0) (by decide) now event).mpr clean member inside
  cases shape : member.2 with
  | raw text =>
    rw [shape] at free
    exact free
  | count n => trivial
  | null => trivial

theorem event_parses (clean : event.Clean) : ParsesInto now event (eventObject now event) ↔ event.Plain := by
  have visible : ∀ member ∈ members now event, Visible member.1 := fun member inside => (names_fine inside).2
  have line : newline ∉ eventObject now event ↔ ∀ text ∈ event.texts, newline ∉ text := by
    rw [← members_free (by decide) now event, eventObject, objectText, List.mem_cons, not_or, object_free (by decide) _ _ visible]
    exact and_iff_right (by decide)
  have named : ∀ member ∈ members now event, Name member.1 := fun member inside => (names_fine inside).1
  have parsed := object_readable named visible (members_clean clean)
  have readable := members_readable now event
  constructor
  · rintro ⟨ended, fields⟩
    obtain ⟨texts, numbers⟩ := readable.mp (parsed.mp fields)
    exact ⟨fun text inside => ⟨texts text inside, line.mp ended text inside⟩, numbers⟩
  · rintro ⟨texts, numbers⟩
    refine ⟨line.mpr fun text inside => (texts text inside).2, parsed.mpr (readable.mpr ⟨?_, numbers⟩)⟩
    exact fun text inside => (texts text inside).1

def Reaches (attempt : EventAttempt) (now : Utc) (event : EventRecord) : Prop :=
  (durableEventLine now event).isSome ∧ attempt.opened = true ∧ attempt.locked = true

structure EventKept (attempt : EventAttempt) (now : Utc) (event : EventRecord) (content : Bytes) : Prop where
  appended : (durableEventAppend attempt now event content).1 = true →
    ∃ body, (durableEventAppend attempt now event content).2 = content ++ body ++ [newline] ∧ ParsesInto now event body
  unchanged : ¬Reaches attempt now event → durableEventAppend attempt now event content = (false, content)

theorem append_returned {attempt : EventAttempt} {content : Bytes}
    (returned : (durableEventAppend attempt now event content).1 = true) :
    (durableEventAppend attempt now event content).2 = content ++ eventObject now event ++ [newline] := by
  unfold durableEventAppend at returned ⊢
  cases fits : durableEventLine now event with
  | none =>
    rw [fits] at returned
    cases returned
  | some line =>
    rw [fits] at returned
    dsimp only at returned ⊢
    by_cases opened : attempt.opened = false
    · rw [if_pos opened] at returned
      cases returned
    by_cases locked : attempt.locked = false
    · rw [if_neg opened, if_pos locked] at returned
      cases returned
    rw [if_neg opened, if_neg locked] at returned ⊢
    obtain ⟨wrote, synced⟩ := Bool.and_eq_true_iff.mp returned
    have whole := write_event_whole line.length (Nat.le_refl _)
      (Prod.ext wrote rfl : writeEvent attempt.takes line line.length 0 content = (true, _))
    rw [List.drop_zero, event_line_eq fits, ← List.append_assoc] at whole
    rw [event_line_eq fits]
    exact whole

theorem append_unreached {attempt : EventAttempt} (content : Bytes)
    (stopped : ¬Reaches attempt now event) : durableEventAppend attempt now event content = (false, content) := by
  unfold durableEventAppend
  cases fits : durableEventLine now event with
  | none => rfl
  | some line =>
    dsimp only
    by_cases opened : attempt.opened = false
    · rw [if_pos opened]
    by_cases locked : attempt.locked = false
    · rw [if_neg opened, if_pos locked]
    · exact absurd ⟨by rw [fits]; rfl, by simpa using opened, by simpa using locked⟩ stopped

structure Append where
  attempt : EventAttempt
  now : Utc
  event : EventRecord

-- The log that appends leave which all return 1.
def appendAll : List Append → Bytes → Option Bytes
  | [], content => some content
  | append :: more, content =>
    if (durableEventAppend append.attempt append.now append.event content).1 = true then
      appendAll more (durableEventAppend append.attempt append.now append.event content).2
    else none

def LogParses (appends : List Append) (log : Bytes) : Prop :=
  ∃ bodies : List Bytes, log = (bodies.map fun body => body ++ [newline]).flatten ∧
    List.Forall₂ (fun append body => ParsesInto append.now append.event body) appends bodies

theorem log_step (appends : List Append) (plain : ∀ append ∈ appends, append.event.Clean ∧ append.event.Plain) :
    ∀ {content log : Bytes}, appendAll appends content = some log →
      ∃ bodies : List Bytes, log = content ++ (bodies.map fun body => body ++ [newline]).flatten ∧
        List.Forall₂ (fun append body => ParsesInto append.now append.event body) appends bodies := by
  induction appends with
  | nil =>
    intro content log all
    cases all
    exact ⟨[], by simp, .nil⟩
  | cons append more ih =>
    intro content log all
    rw [appendAll] at all
    split_ifs at all with returned
    rw [append_returned returned] at all
    obtain ⟨bodies, whole, parse⟩ := ih (fun other inside => plain other (List.mem_cons_of_mem _ inside)) all
    obtain ⟨clean, fine⟩ := plain append List.mem_cons_self
    refine ⟨eventObject append.now append.event :: bodies, ?_, .cons ((event_parses clean).mpr fine) parse⟩
    rw [whole, List.map_cons, List.flatten_cons]
    simp only [List.append_assoc]

def granted : EventAttempt where
  opened := true
  locked := true
  takes := fun _ => some 100
  synced := true

def noon : Utc where
  year := 2026
  month := 1
  day := 2
  hour := 12
  minute := 0
  second := 0

def buildEvent (message : Bytes) : EventRecord where
  seq := 1
  jobId := utf8 "job-1"
  kind := utf8 "chutni_build"
  state := utf8 "running"
  phase := utf8 "reading"
  completed := some 3
  total := none
  unit := some (utf8 "files")
  currentItem := none
  message := some message

def quietLog : Bytes :=
  (durableEventAppend granted noon (buildEvent (utf8 "ok")) []).2

end SamosaChat.Durable
