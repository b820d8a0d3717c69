import SamosaChat.Lib.Crash
import SamosaChat.Lib.Utf8
import Mathlib.Order.Basic

set_option autoImplicit false

namespace SamosaChat.Durable

open Utf8 Crash

def newline : UInt8 := 0x0a

def windowMax : Nat := 2 ^ 20

@[irreducible] def blockSize : Nat := 4096

inductive AppendCall
  | open
  | seek
  | readTail
  | readBlock (start : Nat)
  | truncate
  | syncTail
  | write (written : Nat)
  | sync
  | close
  deriving DecidableEq

-- One run: what happens to its calls, and how much a write at an offset takes. A call that is
-- interrupted is made again.
structure AppendAttempt where
  fate : AppendCall → Fate Unit
  takes : Nat → Nat

def AppendAttempt.undisturbed (attempt : AppendAttempt) : Prop :=
  ∀ c, attempt.fate c = .allowed

def io (attempt : AppendAttempt) (c : AppendCall) (act : Bytes → Bytes) : Prog Bytes Bool :=
  call (attempt.fate c) (fun _ => false) fun content => (true, act content)

def lastNewline : Bytes → Option Nat
  | [] => none
  | c :: rest =>
    match lastNewline rest with
    | some i => some (i + 1)
    | none => if c = newline then some 0 else none

def scanTail (attempt : AppendAttempt) (content : Bytes) : Nat → Nat → Nat → Prog Bytes (Option (Nat × Nat))
  | 0, scan, validEnd => pure (some (scan, validEnd))
  | rounds + 1, scan, validEnd =>
    if 0 < scan ∧ scan - validEnd ≤ windowMax then do
      let got ← io attempt (.readBlock (scan - blockSize)) id
      if got = false then pure none
      else
        match lastNewline ((content.take scan).drop (scan - blockSize)) with
        | some i => scanTail attempt content rounds 0 (scan - blockSize + i + 1)
        | none => scanTail attempt content rounds (scan - blockSize) validEnd
    else pure (some (scan, validEnd))

def truncateTail (attempt : AppendAttempt) (validEnd : Nat) : Prog Bytes Bool := do
  let truncated ← io attempt .truncate (·.take validEnd)
  if truncated = false then pure false else io attempt .syncTail id

def repairTail (attempt : AppendAttempt) (content : Bytes) : Prog Bytes Bool := do
  let scanned ← scanTail attempt content (content.length + 1) content.length 0
  match scanned with
  | none => pure false
  | some (scan, validEnd) =>
    if scan > 0 ∧ validEnd = 0 ∧ content.length > windowMax then pure false else truncateTail attempt validEnd

def checkTail (attempt : AppendAttempt) : Prog Bytes Bool := do
  let content ← look
  let found ← io attempt .seek id
  if found = false then pure false
  else if content = [] then pure true
  else do
    let got ← io attempt .readTail id
    if got = false then pure false
    else if content.getLast? = some newline then pure true
    else repairTail attempt content

def writeLine (attempt : AppendAttempt) (line : Bytes) : Nat → Nat → Prog Bytes Bool
  | 0, _ => pure true
  | rounds + 1, written =>
    if written < line.length then do
      let count := max 1 (min (attempt.takes written) (line.length - written))
      let put ← io attempt (.write written) (· ++ (line.drop written).take count)
      if put = false then pure false else writeLine attempt line rounds (written + count)
    else pure true

def appendLine (attempt : AppendAttempt) (line : Bytes) : Prog Bytes Bool := do
  let ok ← checkTail attempt
  if ok = false then pure false
  else do
    let ok ← writeLine attempt line line.length 0
    if ok = false then pure false else io attempt .sync id

def appendDurableLine (attempt : AppendAttempt) (line : Bytes) : Prog Bytes Bool := do
  let opened ← io attempt .open id
  if opened = false then pure false
  else do
    let ok ← appendLine attempt line
    let closed ← io attempt .close id
    pure (ok && closed)

-- The longest beginning that is empty or ends in a line end, and what stands behind it.
def completeLines (content : Bytes) : Bytes :=
  (content.reverse.dropWhile (· ≠ newline)).reverse

def tornTail (content : Bytes) : Bytes :=
  (content.reverse.takeWhile (· ≠ newline)).reverse

theorem complete_torn (content : Bytes) : completeLines content ++ tornTail content = content := by
  rw [completeLines, tornTail, ← List.reverse_append, List.takeWhile_append_dropWhile, List.reverse_reverse]

theorem pass_line (l : Bytes) {after : Bytes} (none_ : newline ∉ l) :
    (l ++ after).dropWhile (· ≠ newline) = after.dropWhile (· ≠ newline) := by
  induction l with
  | nil => rfl
  | cons c l ih =>
    obtain ⟨other, later⟩ := List.ne_and_not_mem_of_not_mem_cons none_
    rw [List.cons_append, List.dropWhile_cons, if_pos (by simpa using Ne.symm other), ih later]

theorem complete_append_line (content : Bytes) {rest : Bytes} (torn : newline ∉ rest) :
    completeLines (content ++ newline :: rest) = content ++ [newline] := by
  have shape : (content ++ newline :: rest).reverse = rest.reverse ++ newline :: content.reverse := by simp
  rw [completeLines, shape, pass_line rest.reverse (by simpa using torn)]
  simp

theorem complete_none {content : Bytes} (none_ : newline ∉ content) : completeLines content = [] := by
  have empty := @pass_line content.reverse [] (by simpa using none_)
  rw [List.append_nil] at empty
  rw [completeLines, empty]
  rfl

theorem complete_self {content : Bytes} (whole : content = [] ∨ content.getLast? = some newline) :
    completeLines content = content := by
  rcases whole with rfl | last
  · rfl
  · obtain ⟨before, rfl⟩ := List.getLast?_eq_some_iff.mp last
    exact complete_append_line before (by simp)

theorem last_newline_none {block : Bytes} (none_ : lastNewline block = none) : newline ∉ block := by
  induction block with
  | nil => simp
  | cons c rest ih =>
    rw [lastNewline] at none_
    cases later : lastNewline rest with
    | some j =>
      rw [later] at none_
      cases none_
    | none =>
      rw [later] at none_
      dsimp only at none_
      split_ifs at none_ with here
      exact fun inside => (List.mem_cons.mp inside).elim (fun same => here same.symm) (ih later)

theorem last_newline_some {block : Bytes} {i : Nat} (found : lastNewline block = some i) :
    ∃ before after, block = before ++ newline :: after ∧ before.length = i ∧ newline ∉ after := by
  induction block generalizing i with
  | nil => cases found
  | cons c rest ih =>
    rw [lastNewline] at found
    cases later : lastNewline rest with
    | some j =>
      rw [later] at found
      cases found
      obtain ⟨before, after, rfl, size, none_⟩ := ih later
      exact ⟨c :: before, after, rfl, by simp [size], none_⟩
    | none =>
      rw [later] at found
      dsimp only at found
      split_ifs at found with here
      cases found
      exact ⟨[], rest, by rw [here]; rfl, rfl, last_newline_none later⟩

theorem complete_whole (content : Bytes) : completeLines content = [] ∨ (completeLines content).getLast? = some newline := by
  cases last : lastNewline content with
  | none => exact .inl (complete_none (last_newline_none last))
  | some i =>
    obtain ⟨before, after, rfl, _, none_⟩ := last_newline_some last
    right
    rw [complete_append_line before none_]
    simp

theorem complete_append {content rest : Bytes} (whole : content = [] ∨ content.getLast? = some newline) :
    completeLines (content ++ rest) = content ++ completeLines rest := by
  cases last : lastNewline rest with
  | none =>
    have none_ := last_newline_none last
    rw [complete_none none_, List.append_nil]
    rcases whole with rfl | ends
    · exact complete_none none_
    · obtain ⟨before, rfl⟩ := List.getLast?_eq_some_iff.mp ends
      rw [List.append_assoc]
      exact complete_append_line before none_
  | some i =>
    obtain ⟨before, after, rfl, _, none_⟩ := last_newline_some last
    rw [← List.append_assoc, complete_append_line _ none_, complete_append_line _ none_, List.append_assoc]

section Run

variable {attempt : AppendAttempt} {content : Bytes} {β : Type}

def AppendAttempt.disturbed (attempt : AppendAttempt) : Prop :=
  ∃ c, attempt.fate c ≠ .allowed

theorem ends_io {c : AppendCall} {act : Bytes → Bytes} {next : Bool → Prog Bytes β} {post : β → Bytes → Prop}
    {crash : Bytes → Prop} {file : Bytes} (stopped : attempt.disturbed → crash file)
    (refused : attempt.disturbed → Ends (next false) post crash file) (allowed : Ends (next true) post crash (act file)) :
    Ends (io attempt c act >>= next) post crash file := by
  rw [ends_bind]
  refine ends_call.mpr ⟨fun _ => allowed, fun _ refusal => refused ⟨c, ?_⟩, fun stop => stopped ⟨c, ?_⟩⟩
  · rw [refusal]
    simp
  · rw [stop]
    simp

theorem ends_io_last {c : AppendCall} {act : Bytes → Bytes} {post : Bool → Bytes → Prop} {crash : Bytes → Prop}
    {file : Bytes} (stopped : attempt.disturbed → crash file) (refused : attempt.disturbed → post false file)
    (allowed : post true (act file)) : Ends (io attempt c act) post crash file := by
  refine ends_call.mpr ⟨fun _ => allowed, fun _ refusal => refused ⟨c, ?_⟩, fun stop => stopped ⟨c, ?_⟩⟩
  · rw [refusal]
    simp
  · rw [stop]
    simp

def InWindow (content : Bytes) : Prop :=
  content.length ≤ windowMax ∨ tornTail content = []

theorem torn_nil_iff (content : Bytes) : tornTail content = [] ↔ content = [] ∨ content.getLast? = some newline := by
  constructor
  · intro none_
    have parts := complete_torn content
    rw [none_, List.append_nil] at parts
    rw [← parts]
    exact complete_whole content
  · intro whole
    have parts := complete_torn content
    rw [complete_self whole] at parts
    exact List.append_cancel_left (parts.trans (List.append_nil content).symm)

theorem block_found {scan i : Nat} (inside : scan ≤ content.length) (plain : newline ∉ content.drop scan)
    (found : lastNewline ((content.take scan).drop (scan - blockSize)) = some i) :
    content.take (scan - blockSize + i + 1) = completeLines content := by
  obtain ⟨before, after, block, size, none_⟩ := last_newline_some found
  have parts : content = content.take (scan - blockSize) ++ ((content.take scan).drop (scan - blockSize) ++ content.drop scan) := by
    have front : content.take (scan - blockSize) = (content.take scan).take (scan - blockSize) := by
      rw [List.take_take, Nat.min_eq_left (by omega)]
    rw [front, ← List.append_assoc, List.take_append_drop, List.take_append_drop]
  have front : (content.take (scan - blockSize) ++ before).length = scan - blockSize + i := by
    rw [List.length_append, List.length_take, size]
    omega
  have shape : content = (content.take (scan - blockSize) ++ before) ++ newline :: (after ++ content.drop scan) := by
    calc content = _ := parts
      _ = _ := by rw [block]; simp
  have torn : newline ∉ after ++ content.drop scan := by
    simpa using ⟨none_, plain⟩
  have lines : completeLines content = (content.take (scan - blockSize) ++ before) ++ [newline] := by
    calc completeLines content = completeLines _ := by rw [← shape]
      _ = _ := complete_append_line _ torn
  rw [lines]
  calc content.take (scan - blockSize + i + 1)
      = ((content.take (scan - blockSize) ++ before) ++ newline :: (after ++ content.drop scan)).take
          ((content.take (scan - blockSize) ++ before).length + 1) := by rw [← shape, front]
    _ = _ := by rw [List.take_length_add_append]; simp

theorem block_missed {scan : Nat} (inside : scan ≤ content.length) (plain : newline ∉ content.drop scan)
    (missed : lastNewline ((content.take scan).drop (scan - blockSize)) = none) : newline ∉ content.drop (scan - blockSize) := by
  have none_ := last_newline_none missed
  have shape : content.drop (scan - blockSize) = (content.take scan).drop (scan - blockSize) ++ content.drop scan := by
    have front : content.drop (scan - blockSize) = (content.take scan ++ content.drop scan).drop (scan - blockSize) := by
      rw [List.take_append_drop]
    rw [front, List.drop_append_of_le_length (by rw [List.length_take]; omega)]
  rw [shape]
  simpa using ⟨none_, plain⟩

theorem scan_tail_done (rounds validEnd : Nat) (file : Bytes) :
    scanTail attempt content rounds 0 validEnd file = (some (some (0, validEnd)), file) := by
  cases rounds with
  | zero =>
    rw [scanTail]
    rfl
  | succ rounds =>
    rw [scanTail, if_neg (by omega)]
    rfl

-- The scan ends where the complete lines do, unless it never gets into its window.
theorem scan_tail_ends (rounds : Nat) :
    ∀ scan, scan ≤ content.length → newline ∉ content.drop scan → scan < rounds → scan ≤ windowMax →
      Ends (scanTail attempt content rounds scan 0)
        (fun scanned file => file = content ∧ (scanned = none → attempt.disturbed) ∧
          ∀ scan' validEnd, scanned = some (scan', validEnd) → scan' = 0 ∧ content.take validEnd = completeLines content)
        (fun file => file = content ∧ attempt.disturbed) content := by
  induction rounds with
  | zero =>
    intro scan _ _ less
    exact absurd less (Nat.not_lt_zero scan)
  | succ rounds ih =>
    intro scan inside plain enough window
    rw [scanTail]
    by_cases more : 0 < scan ∧ scan - 0 ≤ windowMax
    · rw [if_pos more]
      refine ends_io (fun stop => ⟨rfl, stop⟩) (fun refused => ⟨rfl, fun _ => refused, fun _ _ none => by cases none⟩) ?_
      rw [if_neg (by simp)]
      cases found : lastNewline ((content.take scan).drop (scan - blockSize)) with
      | some i =>
        unfold Ends
        dsimp only [id]
        rw [scan_tail_done]
        refine ⟨rfl, fun none => (by cases none), fun scan' validEnd same => ?_⟩
        cases same
        exact ⟨rfl, block_found inside plain found⟩
      | none =>
        have block : 0 < blockSize := by decide +kernel
        exact ih (scan - blockSize) (by omega) (block_missed inside plain found) (by omega) (by omega)
    · rw [if_neg more]
      refine ⟨rfl, fun none => (by cases none), fun scan' validEnd same => ?_⟩
      cases same
      have done : scan = 0 := by omega
      subst done
      exact ⟨rfl, (complete_none (by simpa using plain)).symm⟩

theorem repair_tail_ends (torn : tornTail content ≠ []) : Ends (repairTail attempt content)
      (fun ok file => (ok = true → InWindow content ∧ file = completeLines content) ∧
        (ok = false → attempt.disturbed ∨ ¬ InWindow content) ∧ (file = content ∨ file = completeLines content))
      (fun file => attempt.disturbed ∧ (file = content ∨ file = completeLines content)) content := by
  unfold repairTail
  by_cases window : content.length ≤ windowMax
  · refine ((scan_tail_ends (content.length + 1) content.length (Nat.le_refl _) (by simp) (Nat.lt_succ_self _) window).mono
      (fun scanned file ends => ends) (fun file stop => ⟨stop.2, .inl stop.1⟩)).bind fun scanned file ends => ?_
    obtain ⟨rfl, failed, found⟩ := ends
    cases scanned with
    | none => exact ⟨fun yes => (by cases yes), fun _ => .inl (failed rfl), .inl rfl⟩
    | some result =>
      obtain ⟨scan, validEnd⟩ := result
      obtain ⟨rfl, valid⟩ := found scan validEnd rfl
      dsimp only
      rw [if_neg (by omega)]
      refine ends_io (fun stop => ⟨stop, .inl rfl⟩)
        (fun refused => ⟨fun yes => (by cases yes), fun _ => .inl refused, .inl rfl⟩) ?_
      rw [if_neg (by simp), valid]
      exact ends_io_last (fun stop => ⟨stop, .inr rfl⟩)
        (fun refused => ⟨fun yes => (by cases yes), fun _ => .inl refused, .inr rfl⟩)
        ⟨fun _ => ⟨.inl window, rfl⟩, fun no => (by cases no), .inr rfl⟩
  · -- The scan stops at once, with no line end found.
    have outside : ¬ InWindow content := fun inside => inside.elim window torn
    have start : scanTail attempt content (content.length + 1) content.length 0 content =
        (some (some (content.length, 0)), content) := by
      rw [scanTail, if_neg (by omega)]
      rfl
    rw [ends_bind]
    unfold Ends
    rw [start]
    dsimp only
    rw [if_pos ⟨by omega, rfl, by omega⟩]
    exact ⟨fun yes => (by cases yes), fun _ => .inr outside, .inl rfl⟩

theorem check_tail_ends : Ends (checkTail attempt)
      (fun ok file => (ok = true → InWindow content ∧ file = completeLines content) ∧
        (ok = false → attempt.disturbed ∨ ¬ InWindow content) ∧ (file = content ∨ file = completeLines content))
      (fun file => attempt.disturbed ∧ (file = content ∨ file = completeLines content)) content := by
  have failed : attempt.disturbed → (false = true → InWindow content ∧ content = completeLines content) ∧
      (false = false → attempt.disturbed ∨ ¬ InWindow content) ∧ (content = content ∨ content = completeLines content) :=
    fun refused => ⟨fun yes => (by cases yes), fun _ => .inl refused, .inl rfl⟩
  have kept : content = [] ∨ content.getLast? = some newline →
      (true = true → InWindow content ∧ content = completeLines content) ∧
        (true = false → attempt.disturbed ∨ ¬ InWindow content) ∧ (content = content ∨ content = completeLines content) :=
    fun whole => ⟨fun _ => ⟨.inr ((torn_nil_iff content).mpr whole), (complete_self whole).symm⟩, fun no => (by cases no), .inl rfl⟩
  unfold checkTail
  rw [ends_bind, ends_look]
  refine ends_io (fun stop => ⟨stop, .inl rfl⟩) failed ?_
  rw [if_neg (by simp)]
  by_cases empty : content = []
  · rw [if_pos empty]
    exact kept (.inl empty)
  rw [if_neg empty]
  refine ends_io (fun stop => ⟨stop, .inl rfl⟩) failed ?_
  rw [if_neg (by simp)]
  by_cases last : content.getLast? = some newline
  · rw [if_pos last]
    exact kept (.inr last)
  · rw [if_neg last]
    exact repair_tail_ends fun none_ => ((torn_nil_iff content).mp none_).elim empty last

theorem write_line_ends (line : Bytes) (rounds : Nat) : ∀ written, line.length ≤ written + rounds →
      Ends (writeLine attempt line rounds written)
        (fun ok file => (ok = true → file = completeLines content ++ line) ∧ (ok = false → attempt.disturbed) ∧
          ∃ k, file = completeLines content ++ line.take k)
        (fun file => attempt.disturbed ∧ ∃ k, file = completeLines content ++ line.take k)
        (completeLines content ++ line.take written) := by
  induction rounds with
  | zero =>
    intro written enough
    refine ⟨fun _ => ?_, fun no => (by cases no), written, rfl⟩
    rw [List.take_of_length_le (by omega)]
  | succ rounds ih =>
    intro written enough
    rw [writeLine]
    by_cases more : written < line.length
    · rw [if_pos more]
      dsimp only
      refine ends_io (fun stop => ⟨stop, written, rfl⟩)
        (fun refused => ⟨fun yes => (by cases yes), fun _ => refused, written, rfl⟩) ?_
      rw [if_neg (by simp), List.append_assoc, ← List.take_add]
      exact ih _ (by omega)
    · rw [if_neg more]
      refine ⟨fun _ => ?_, fun no => (by cases no), written, rfl⟩
      rw [List.take_of_length_le (by omega)]

def Appended (content line file : Bytes) : Prop :=
  file = content ∨ ∃ k, file = completeLines content ++ line.take k

theorem append_line_ends (line : Bytes) : Ends (appendLine attempt line)
      (fun ok file => (ok = true → InWindow content ∧ file = completeLines content ++ line) ∧
        (ok = false → attempt.disturbed ∨ ¬ InWindow content) ∧ Appended content line file)
      (fun file => attempt.disturbed ∧ Appended content line file) content := by
  have partial_ : ∀ file, file = content ∨ file = completeLines content → Appended content line file := by
    rintro file (rfl | rfl)
    · exact .inl rfl
    · exact .inr ⟨0, by simp⟩
  unfold appendLine
  refine (check_tail_ends.mono (fun ok file ends => ends) (fun file stop => ⟨stop.1, partial_ file stop.2⟩)).bind
    fun ok file ends => ?_
  obtain ⟨checked, failed, left⟩ := ends
  cases ok with
  | false => exact ⟨fun yes => (by cases yes), failed, partial_ file left⟩
  | true =>
    obtain ⟨window, rfl⟩ := checked rfl
    rw [if_neg (by simp)]
    have start := @write_line_ends attempt content line line.length 0 (by omega)
    rw [List.take_zero, List.append_nil] at start
    refine (start.mono (fun ok file ends => ends)
      (fun file stop => ⟨stop.1, .inr stop.2⟩)).bind fun ok file ends => ?_
    obtain ⟨written, refused, prefix_⟩ := ends
    cases ok with
    | false => exact ⟨fun yes => (by cases yes), fun _ => .inl (refused rfl), .inr prefix_⟩
    | true =>
      rw [if_neg (by simp)]
      exact ends_io_last (fun stop => ⟨stop, .inr prefix_⟩)
        (fun refused => ⟨fun yes => (by cases yes), fun _ => .inl refused, .inr prefix_⟩)
        ⟨fun _ => ⟨window, written rfl⟩, fun no => (by cases no), .inr prefix_⟩

theorem append_durable_ends (line : Bytes) : Ends (appendDurableLine attempt line)
      (fun ok file => (ok = true → InWindow content ∧ file = completeLines content ++ line) ∧
        (ok = false → attempt.disturbed ∨ ¬ InWindow content) ∧ Appended content line file)
      (fun file => attempt.disturbed ∧ Appended content line file) content := by
  unfold appendDurableLine
  refine ends_io (fun stop => ⟨stop, .inl rfl⟩)
    (fun refused => ⟨fun yes => (by cases yes), fun _ => .inl refused, .inl rfl⟩) ?_
  rw [if_neg (by simp)]
  refine (append_line_ends line).bind fun ok file ends => ?_
  obtain ⟨written, failed, left⟩ := ends
  refine ends_io (fun stop => ⟨stop, left⟩) (fun refused => ?_) ?_
  · exact ⟨fun yes => (by simp at yes), fun _ => .inl refused, left⟩
  · cases ok with
    | false => exact ⟨fun yes => (by cases yes), failed, left⟩
    | true => exact ⟨written, fun no => (by cases no), left⟩

end Run

theorem torn_append_line (content : Bytes) {rest : Bytes} (torn : newline ∉ rest) :
    tornTail (content ++ newline :: rest) = rest := by
  have parts := complete_torn (content ++ newline :: rest)
  rw [complete_append_line content torn] at parts
  have shape : content ++ newline :: rest = (content ++ [newline]) ++ rest := by simp
  exact List.append_cancel_left (parts.trans shape)

theorem complete_longest {content front : Bytes} (start : front <+: content)
    (whole : front = [] ∨ front.getLast? = some newline) : front <+: completeLines content := by
  obtain ⟨rest, rfl⟩ := start
  rw [complete_append whole]
  exact ⟨_, rfl⟩

theorem append_undisturbed {attempt : AppendAttempt} (undisturbed : attempt.undisturbed) (line content : Bytes) :
    (InWindow content → appendDurableLine attempt line content = (some true, completeLines content ++ line)) ∧
      (¬ InWindow content → (appendDurableLine attempt line content).1 = some false) := by
  have never : ¬ attempt.disturbed := fun ⟨c, other⟩ => other (undisturbed c)
  obtain ⟨ok, answer, written, failed, _⟩ :=
    ((@append_durable_ends attempt content line).mono (fun _ _ ends => ends)
      (fun _ stop => never stop.1)).total
  cases ok with
  | false =>
    refine ⟨fun window => ?_, fun _ => answer⟩
    exact ((failed rfl).elim never fun outside => outside window).elim
  | true =>
    obtain ⟨window, file⟩ := written rfl
    refine ⟨fun _ => Prod.ext answer file, fun outside => (outside window).elim⟩

def Restores (content line : Bytes) : Prop :=
  (tornTail content).length ≤ windowMax →
    ∀ attempt : AppendAttempt, attempt.undisturbed →
      appendDurableLine attempt line content = (some true, completeLines content ++ line) ∧
        tornTail (completeLines content ++ line) = []

theorem append_left_lines (attempt : AppendAttempt) (line content : Bytes) :
    completeLines content <+: completeLines (appendDurableLine attempt line content).2 := by
  have left : Appended content line (appendDurableLine attempt line content).2 :=
    @Ends.left _ _ _ _ (Appended content line)
      ((append_durable_ends line).mono (fun _ _ ends => ends.2.2) (fun _ stop => stop.2))
  rcases left with same | ⟨k, same⟩
  · exact ⟨[], by rw [same, List.append_nil]⟩
  · rw [same]
    exact complete_longest ⟨_, rfl⟩ (complete_whole content)

theorem journal_tail_repair (content line : Bytes) (ended : line.getLast? = some newline) :
    (Restores content line ↔ InWindow content ∨ windowMax < (tornTail content).length) ∧
      ∀ (stopped : AppendAttempt) (interrupted : Bytes),
        completeLines content <+: completeLines (appendDurableLine stopped interrupted content).2 ∧
          (InWindow (appendDurableLine stopped interrupted content).2 →
            Restores (appendDurableLine stopped interrupted content).2 line) := by
  have whole : ∀ file : Bytes, tornTail (completeLines file ++ line) = [] := by
    intro file
    obtain ⟨before, rfl⟩ := List.getLast?_eq_some_iff.mp ended
    rw [← List.append_assoc]
    exact torn_append_line _ (by simp)
  have enough : ∀ file : Bytes, InWindow file → Restores file line :=
    fun file window _ attempt undisturbed => ⟨(append_undisturbed undisturbed line file).1 window, whole file⟩
  refine ⟨⟨fun restores => ?_, ?_⟩, fun stopped interrupted => ⟨append_left_lines stopped interrupted content, enough _⟩⟩
  · by_contra neither
    rw [not_or, Nat.not_lt] at neither
    let attempt : AppendAttempt := { fate := fun _ => .allowed, takes := fun _ => 1 }
    have answer := (@append_undisturbed attempt (fun _ => rfl) line content).2 neither.1
    rw [(restores neither.2 attempt fun _ => rfl).1] at answer
    cases answer
  · rintro (window | long)
    · exact enough content window
    · exact fun short => absurd short (Nat.not_le_of_lt long)

theorem journal_tail_repair_small :
    ([0x62, newline] : Bytes).getLast? = some newline ∧ Restores [0x61, newline, 0x61] [0x62, newline] :=
  ⟨by decide, (journal_tail_repair [0x61, newline, 0x61] [0x62, newline] (by decide)).1.mpr (.inl (.inl (by decide)))⟩

-- A journal past the window that ends in one torn byte takes no more lines.
theorem long_journal_stuck :
    (tornTail (List.replicate windowMax newline ++ newline :: [0x61])).length = 1 ∧
      ¬ Restores (List.replicate windowMax newline ++ newline :: [0x61]) [0x62, newline] := by
  have torn : tornTail (List.replicate windowMax newline ++ newline :: [0x61]) = [0x61] :=
    torn_append_line _ (by decide)
  refine ⟨by rw [torn]; rfl, fun restores => ?_⟩
  let attempt : AppendAttempt := { fate := fun _ => .allowed, takes := fun _ => 1 }
  have outside : ¬ InWindow (List.replicate windowMax newline ++ newline :: [0x61]) := by
    rintro (short | whole)
    · rw [List.length_append, List.length_replicate, List.length_cons] at short
      omega
    · rw [torn] at whole
      cases whole
  have answer := (@append_undisturbed attempt (fun _ => rfl) [0x62, newline] _).2 outside
  rw [(restores (by rw [torn]; decide) attempt fun _ => rfl).1] at answer
  cases answer

end SamosaChat.Durable
