import SamosaChat.Durable.AppendLine
import SamosaChat.Json.RoundTrip

set_option autoImplicit false

namespace SamosaChat.Durable

open Utf8 Text Decimal Json

def logMax : Nat := 16 <<< 20

-- What the system answers while one event is appended. A loop of reads or writes goes on until all the
-- bytes have passed or a call fails, so that only the failure matters.
structure EventCalls where
  opens : Bool
  stats : Bool
  allocates : Bool
  reads : Bool
  copies : Bool
  builds : Bool
  names : Bool
  creates : Bool
  writes : Bool
  syncs : Bool
  closes : Bool
  renames : Bool

-- The fields of an event as its callers write them, with text_json_string and plain numbers.
structure EventFields where
  text : Bytes
  visible : Visible text

structure Event where
  calls : EventCalls
  now : Bytes
  type : Bytes
  fields : EventFields

structure EventLog where
  seq : Int
  file : Option Bytes

def EventLog.content (log : EventLog) : Bytes :=
  log.file.getD []

def readFileLimit (calls : EventCalls) (limit : Nat) (file : Option Bytes) : Option Bytes :=
  match file with
  | none => none
  | some content =>
    if !calls.opens then none
    else if !calls.stats || content.length > limit then none
    else if !calls.allocates then none
    else if !calls.reads then none
    else some content

def writeSmallFile (calls : EventCalls) (text : Bytes) (file : Option Bytes) : Bool × Option Bytes :=
  if calls.names && calls.creates && calls.writes && calls.syncs && calls.closes && calls.renames then
    (true, some (cstr text))
  else (false, file)

def eventText (out : Bytes) (seq : Int) (now type fields : Bytes) : Option Bytes :=
  (textJsonString (out ++ utf8 "\x7b\"seq\":" ++ decimalInt seq ++ utf8 ",\"ts\":") now).bind fun out =>
    (textJsonString (out ++ utf8 ",\"type\":") type).map fun out =>
      (if fields = [] then out else out ++ utf8 "," ++ fields) ++ utf8 "\x7d\n"

-- That the old log could not be copied goes unnoticed, like any reason for not reading it.
def oldText (calls : EventCalls) (file : Option Bytes) : Bytes :=
  match readFileLimit calls logMax file with
  | none => []
  | some old => if calls.copies then cstr old else []

def appendJobEventFile (event : Event) (log : EventLog) : Bool × EventLog :=
  let text :=
    if event.calls.builds then
      eventText (oldText event.calls log.file) log.seq event.now event.type event.fields.text
    else none
  match text with
  | none => (false, { log with seq := log.seq + 1 })
  | some text =>
    let (ok, file) := writeSmallFile event.calls text log.file
    (ok, { seq := log.seq + 1, file := file })

def numbered (seq : Int) : Bytes :=
  utf8 "\x7b\"seq\":" ++ decimalInt seq ++ utf8 ","

def Grew (before after : EventLog) : Prop :=
  ∃ line, numbered before.seq <+: line ∧ newline ∉ line ∧ after.file = some (before.content ++ line ++ [newline]) ∧
    completeLines after.content = completeLines before.content ++ line ++ [newline]

def AppendsOrLeaves (event : Event) (log : EventLog) : Prop :=
  if (appendJobEventFile event log).1 then Grew log (appendJobEventFile event log).2
  else (appendJobEventFile event log).2.file = log.file

def EventCalls.replaces (calls : EventCalls) : Bool :=
  calls.builds && calls.names && calls.creates && calls.writes && calls.syncs && calls.closes && calls.renames

structure ReadWhole (calls : EventCalls) (content : Bytes) : Prop where
  calls : calls.opens = true ∧ calls.stats = true ∧ calls.allocates = true ∧ calls.reads = true ∧ calls.copies = true
  small : content.length ≤ logMax
  text : (0 : UInt8) ∉ content
  lines : content.getLast? = some newline

def Kept (event : Event) (log : EventLog) : Prop :=
  event.calls.replaces = true → log.content = [] ∨ ReadWhole event.calls log.content

def eventLine (seq : Int) (now type fields : Bytes) : Bytes :=
  utf8 "\x7b\"seq\":" ++ decimalInt seq ++ utf8 ",\"ts\":" ++ (0x22 :: escaped now ++ [0x22]) ++ utf8 ",\"type\":" ++
    (0x22 :: escaped type ++ [0x22]) ++ (if fields = [] then [] else utf8 "," ++ fields) ++ utf8 "\x7d"

theorem event_text_eq (out : Bytes) (seq : Int) (now type fields : Bytes) :
    eventText out seq now type fields = some (out ++ eventLine seq now type fields ++ [newline]) := by
  have end_ : utf8 "\x7d\n" = utf8 "\x7d" ++ [newline] := by decide
  simp only [eventText, text_json_string_eq, Option.bind_some, Option.map_some, eventLine, end_]
  split_ifs <;> simp

theorem event_line_visible (seq : Int) (now type : Bytes) (fields : EventFields) :
    Visible (eventLine seq now type fields.text) := by
  have words : Visible (utf8 "\x7b\"seq\":") ∧ Visible (utf8 ",\"ts\":") ∧ Visible (utf8 ",\"type\":") ∧
      Visible (utf8 "\x7d") := by
    decide
  have members : Visible (if fields.text = [] then [] else utf8 "," ++ fields.text) := by
    split_ifs
    · exact fun c inside => by cases inside
    · exact visible_append.mpr ⟨by decide, fields.visible⟩
  unfold eventLine
  simp only [visible_append]
  exact ⟨⟨⟨⟨⟨⟨⟨words.1, decimal_int_visible seq⟩, words.2.1⟩, visible_append.mp (quoted_visible now)⟩, words.2.2.1⟩,
    visible_append.mp (quoted_visible type)⟩, members⟩, words.2.2.2⟩

theorem visible_line {text : Bytes} (visible : Visible text) : newline ∉ text := by
  intro inside
  exact absurd (visible newline inside) (by decide)

theorem event_line_numbered (seq : Int) (now type fields : Bytes) : numbered seq <+: eventLine seq now type fields := by
  have comma : utf8 ",\"ts\":" = utf8 "," ++ utf8 "\"ts\":" := by decide
  unfold numbered eventLine
  rw [comma]
  simp only [← List.append_assoc]
  simp only [List.append_assoc (utf8 "\x7b\"seq\":" ++ decimalInt seq ++ utf8 ",")]
  exact List.prefix_append _ _

def Readable (calls : EventCalls) (content : Bytes) : Prop :=
  (calls.opens = true ∧ calls.stats = true ∧ calls.allocates = true ∧ calls.reads = true ∧ calls.copies = true) ∧
    content.length ≤ logMax

theorem old_text_read {calls : EventCalls} {content : Bytes} (readable : Readable calls content) :
    oldText calls (some content) = cstr content := by
  obtain ⟨⟨opens, stats, allocates, reads, copies⟩, small⟩ := readable
  have fits : decide (content.length > logMax) = false := by simpa using small
  simp [oldText, readFileLimit, opens, stats, allocates, reads, copies, fits]

theorem old_text_lost {calls : EventCalls} {content : Bytes} (unreadable : ¬Readable calls content) :
    oldText calls (some content) = [] := by
  have some_ : ∀ old, readFileLimit calls logMax (some content) = some old → calls.copies = false := by
    intro old read
    unfold readFileLimit at read
    dsimp only at read
    split_ifs at read with opens stats allocates reads
    by_contra copies
    simp only [Bool.not_eq_true', Bool.or_eq_true, decide_eq_true_eq, not_or] at opens stats allocates reads copies
    exact unreadable ⟨⟨by simpa using opens, by simpa using stats.1, by simpa using allocates, by simpa using reads,
      by simpa using copies⟩, Nat.le_of_not_lt stats.2⟩
  unfold oldText
  cases read : readFileLimit calls logMax (some content) with
  | none => rfl
  | some old => simp [some_ old read]

theorem old_text_no_terminator (calls : EventCalls) (file : Option Bytes) : (0 : UInt8) ∉ oldText calls file := by
  unfold oldText
  cases readFileLimit calls logMax file with
  | none => simp
  | some old =>
    cases calls.copies with
    | true => exact cstr_text old
    | false => simp

variable {event : Event} {log : EventLog}

theorem append_replaces (replaces : event.calls.replaces = true) (log : EventLog) :
    appendJobEventFile event log =
      (true, { seq := log.seq + 1,
               file := some (oldText event.calls log.file ++
                 eventLine log.seq event.now event.type event.fields.text ++ [newline]) }) := by
  simp only [EventCalls.replaces, Bool.and_eq_true] at replaces
  obtain ⟨⟨⟨⟨⟨⟨builds, names⟩, creates⟩, writes⟩, syncs⟩, closes⟩, renames⟩ := replaces
  have whole : (0 : UInt8) ∉ oldText event.calls log.file ++
      eventLine log.seq event.now event.type event.fields.text ++ [newline] := by
    simp only [List.mem_append, not_or]
    exact ⟨⟨old_text_no_terminator _ _, visible_text (event_line_visible _ _ _ _)⟩, by decide⟩
  unfold appendJobEventFile
  simp only [builds, if_true, event_text_eq, writeSmallFile, names, creates, writes, syncs, closes, renames, Bool.and_self,
    cstr_self whole]

theorem append_leaves (fails : event.calls.replaces = false) (log : EventLog) :
    appendJobEventFile event log = (false, { log with seq := log.seq + 1 }) := by
  unfold appendJobEventFile
  cases builds : event.calls.builds with
  | false => rfl
  | true =>
    have refused : (event.calls.names && event.calls.creates && event.calls.writes && event.calls.syncs &&
        event.calls.closes && event.calls.renames) = false := by
      simpa [EventCalls.replaces, builds] using fails
    simp only [if_true, event_text_eq, writeSmallFile, refused, Bool.false_eq_true, if_false]

theorem last_newline_append (text : Bytes) : completeLines (text ++ [newline]) = text ++ [newline] :=
  complete_append_line text (by simp)

theorem kept_grew (replaces : event.calls.replaces = true)
    (kept : log.content = [] ∨ ReadWhole event.calls log.content) : Grew log (appendJobEventFile event log).2 := by
  have old : oldText event.calls log.file = log.content ∧ (log.content = [] ∨ log.content.getLast? = some newline) := by
    unfold EventLog.content at kept ⊢
    generalize log.file = file at kept ⊢
    cases file with
    | none => exact ⟨rfl, .inl rfl⟩
    | some content =>
      rw [Option.getD_some] at kept ⊢
      rcases kept with empty | whole
      · subst empty
        refine ⟨?_, .inl rfl⟩
        by_cases readable : Readable event.calls []
        · exact old_text_read readable
        · exact old_text_lost readable
      · refine ⟨?_, .inr whole.lines⟩
        rw [old_text_read ⟨whole.calls, whole.small⟩, cstr_self whole.text]
  rw [append_replaces replaces log, old.1]
  refine ⟨eventLine log.seq event.now event.type event.fields.text, event_line_numbered _ _ _ _,
    visible_line (event_line_visible _ _ _ _), rfl, ?_⟩
  have self := last_newline_append (log.content ++ eventLine log.seq event.now event.type event.fields.text)
  simp only [EventLog.content, Option.getD_some] at self ⊢
  rw [self, complete_self (by exact old.2)]

theorem grew_kept (replaces : event.calls.replaces = true)
    (grew : Grew log (appendJobEventFile event log).2) : log.content = [] ∨ ReadWhole event.calls log.content := by
  obtain ⟨line, _, one, file, lines⟩ := grew
  rw [append_replaces replaces log] at file lines
  have written := List.append_cancel_right (Option.some.inj file)
  have visible := event_line_visible log.seq event.now event.type event.fields
  -- No torn tail: the lines before and after differ by the line alone.
  have torn : completeLines log.content = log.content := by
    have after : ∀ text : Bytes, EventLog.content ⟨log.seq + 1, some text⟩ = text := fun text => rfl
    rw [after, last_newline_append, written, List.append_assoc, List.append_assoc] at lines
    exact (List.append_cancel_right lines).symm
  rcases complete_whole log.content with empty | last
  · exact .inl (torn.symm.trans empty)
  rw [torn] at last
  right
  have inside : newline ∈ log.content := List.mem_of_getLast? last
  cases present : log.file with
  | none =>
    rw [EventLog.content, present] at inside
    exact absurd inside (by simp)
  | some content =>
    have same : log.content = content := by rw [EventLog.content, present]; rfl
    rw [same] at written inside last ⊢
    rw [present] at written
    have readable : Readable event.calls content := by
      by_contra unreadable
      rw [old_text_lost unreadable, List.nil_append] at written
      refine visible_line visible ?_
      rw [written]
      exact List.mem_append_left _ inside
    rw [old_text_read readable] at written
    refine ⟨readable.1, readable.2, fun zero_ => ?_, last⟩
    have among : (0 : UInt8) ∈ cstr content ++ eventLine log.seq event.now event.type event.fields.text := by
      rw [written]
      exact List.mem_append_left _ zero_
    exact (List.mem_append.mp among).elim (cstr_text content) (visible_text visible)

theorem appends_iff (event : Event) (log : EventLog) : AppendsOrLeaves event log ↔ Kept event log := by
  unfold AppendsOrLeaves Kept
  cases replaces : event.calls.replaces with
  | true =>
    have ok : (appendJobEventFile event log).1 = true := by rw [append_replaces replaces]
    rw [if_pos ok]
    exact ⟨fun grew _ => grew_kept replaces grew, fun kept => kept_grew replaces (kept rfl)⟩
  | false =>
    rw [append_leaves replaces]
    simp

def appendEvents : List Event → EventLog → EventLog
  | [], log => log
  | event :: events, log => appendEvents events (appendJobEventFile event log).2

def Throughout (holds : Event → EventLog → Prop) : List Event → EventLog → Prop
  | [], _ => True
  | event :: events, log => holds event log ∧ Throughout holds events (appendJobEventFile event log).2

theorem throughout_congr {holds holds' : Event → EventLog → Prop} (same : ∀ event log, holds event log ↔ holds' event log) :
    ∀ (events : List Event) (log : EventLog), Throughout holds events log ↔ Throughout holds' events log
  | [], _ => Iff.rfl
  | event :: events, log => and_congr (same event log) (throughout_congr same events _)

theorem appends_start (appends : AppendsOrLeaves event log) : log.content <+: (appendJobEventFile event log).2.content := by
  unfold AppendsOrLeaves at appends
  split_ifs at appends
  · obtain ⟨line, _, _, file, _⟩ := appends
    have after : (appendJobEventFile event log).2.content = log.content ++ line ++ [newline] := by
      rw [EventLog.content, file]
      rfl
    rw [after, List.append_assoc]
    exact List.prefix_append _ _
  · rw [EventLog.content, EventLog.content, appends]

theorem events_start : ∀ (events : List Event) (log : EventLog), Throughout AppendsOrLeaves events log →
    log.content <+: (appendEvents events log).content
  | [], _, _ => List.prefix_refl _
  | _ :: events, _, ⟨first, later⟩ => (appends_start first).trans (events_start events _ later)

-- Every call of a sequence adds its line to the log or leaves it, exactly when every log that is replaced has
-- been read whole; nothing is lost then.
theorem event_log_grows (events : List Event) (log : EventLog) :
    (Throughout AppendsOrLeaves events log ↔ Throughout Kept events log) ∧
      (Throughout Kept events log → log.content <+: (appendEvents events log).content) := by
  have same := throughout_congr appends_iff events log
  exact ⟨same, fun kept => events_start events log (same.mpr kept)⟩

def calm : EventCalls where
  opens := true
  stats := true
  allocates := true
  reads := true
  copies := true
  builds := true
  names := true
  creates := true
  writes := true
  syncs := true
  closes := true
  renames := true

def calmEvent (type : Bytes) : Event where
  calls := calm
  now := utf8 "2026-01-01T00:00:00Z"
  type := type
  fields := ⟨[], fun c inside => by cases inside⟩

theorem event_log_grows_twice :
    utf8 "first\n" <+:
      (appendEvents [calmEvent (utf8 "applied"), calmEvent (utf8 "error")] ⟨2, some (utf8 "first\n")⟩).content := by
  refine (event_log_grows [calmEvent (utf8 "applied"), calmEvent (utf8 "error")] ⟨2, some (utf8 "first\n")⟩).2
    ⟨fun _ => .inr ⟨by decide, ?_, ?_, ?_⟩, fun _ => .inr ⟨by decide, ?_, ?_, ?_⟩, trivial⟩
  all_goals decide +kernel

-- A log of more than 16 MiB is not read, and only the new line is left of it.
theorem long_log_lost : ¬AppendsOrLeaves (calmEvent (utf8 "applied")) ⟨1, some (List.replicate (logMax + 1) newline)⟩ := by
  rw [appends_iff]
  intro kept
  rcases kept rfl with empty | whole
  · exact absurd (congrArg List.length empty) (by simp [EventLog.content])
  · have small := whole.small
    simp [EventLog.content] at small

end SamosaChat.Durable
