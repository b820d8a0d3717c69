import SamosaChat.Lib.Find
import SamosaChat.Lib.Utf8Cut
import Mathlib.Data.List.Induction

set_option autoImplicit false

namespace SamosaChat.Sample

open Utf8 Text Iterate

-- What stands in the buffer up to `used`, what the file holds behind it, the calls of read so far, and how many
-- bytes of the buffer have been written.
structure Reading where
  text : Bytes
  rest : Bytes
  characters : Nat
  calls : Nat
  touched : Nat

def isLead (c : UInt8) : Bool :=
  c &&& 0xc0 != 0x80

-- One call of read. It gives a byte at least where there is one, and as many as it likes up to what is wanted.
def given (short : Nat → Nat) (want : Nat) (reading : Reading) : Bytes :=
  reading.rest.take (min want (short reading.calls + 1))

def Reading.took (reading : Reading) (got : Bytes) (characters : Nat) : Reading where
  text := reading.text ++ got
  rest := reading.rest.drop got.length
  characters := reading.characters + characters
  calls := reading.calls + 1
  touched := max reading.touched (reading.text.length + got.length)

def readStep (short : Nat → Nat) (target : Nat) (reading : Reading) : Option Reading :=
  if reading.characters < target then
    let want := min (target - reading.characters) (target * 4 - reading.text.length)
    if want = 0 then none
    else
      let got := given short want reading
      if got = [] then none else some (reading.took got (got.countP isLead))
  else none

def announced (c : UInt8) : Nat :=
  if c < 0x80 then 1
  else if c &&& 0xe0 = 0xc0 then 2
  else if c &&& 0xf0 = 0xe0 then 3
  else if c &&& 0xf8 = 0xf0 then 4
  else 1

-- The last byte that is not a continuation byte, or the first byte there is.
def backTo (text : Bytes) : Nat → Nat
  | 0 => 0
  | start + 1 => if isLead (text.getD (start + 1) 0) then start + 1 else backTo text start

def completeStep (short : Nat → Nat) (start width : Nat) (reading : Reading) : Option Reading :=
  if reading.text.length - start < width then
    let got := given short (width - (reading.text.length - start)) reading
    if got = [] then none else some (reading.took got 0)
  else none

def sizeMax : Nat :=
  2 ^ 64 - 1

def fuelFor (content : Bytes) : Nat :=
  content.length + 1

def opened (short : Nat → Nat) (content : Bytes) (target : Nat) : Reading :=
  iterate (readStep short target) (fuelFor content) ⟨[], content, 0, 0, 0⟩

def startOf (reading : Reading) : Nat :=
  backTo reading.text (reading.text.length - 1)

def widthOf (reading : Reading) : Nat :=
  announced (reading.text.getD (startOf reading) 0)

def completed (short : Nat → Nat) (content : Bytes) (reading : Reading) : Reading :=
  if reading.text = [] then reading
  else iterate (completeStep short (startOf reading) (widthOf reading)) (fuelFor content) reading

def usedOf (before after : Reading) : Nat :=
  if before.text ≠ [] ∧ after.text.length - startOf before < widthOf before then startOf before else after.text.length

structure Outcome where
  text : Option Bytes
  touched : Nat

def chutniReadCharacterSample (short : Nat → Nat) (content : Bytes) (target : Nat) (unchanged : Bool) : Outcome :=
  if target = 0 ∨ target > sizeMax / 4 - 1 then ⟨none, 0⟩
  else
    let before := opened short content target
    if before.characters < target ∧ before.text.length = target * 4 then ⟨none, before.touched⟩
    else
      let after := completed short content before
      let used := usedOf before after
      if unchanged then ⟨some (cstr (after.text.take used)), max after.touched (used + 1)⟩
      else ⟨none, after.touched⟩

-- Both loops are left, no byte is written behind the buffer, and the text is the front of the file: of a valid one,
-- as many characters as are asked for or as there are.
structure Exact (short : Nat → Nat) (content : Bytes) (target : Nat) (unchanged : Bool) : Prop where
  read : readStep short target (opened short content target) = none
  complete : completeStep short (startOf (opened short content target)) (widthOf (opened short content target))
    (completed short content (opened short content target)) = none ∨ (opened short content target).text = []
  inside : (chutniReadCharacterSample short content target unchanged).touched ≤ target * 4 + 1
  front : ∀ text, (chutniReadCharacterSample short content target unchanged).text = some text → text <+: content
  whole : ∀ codes text, (∀ code ∈ codes, Scalar code) → content = encode codes →
    (chutniReadCharacterSample short content target unchanged).text = some text → text = encode (codes.take target)

def leads (text : Bytes) : Nat :=
  text.countP isLead

-- The character that is asked for last ends inside the buffer, for all that its first byte says, and so does the
-- NUL that is put behind it.
def Fits (content : Bytes) (target : Nat) (unchanged : Bool) : Prop :=
  ∀ front c rest, content = front ++ c :: rest → isLead c = true → leads front + 1 = target → front.length < target * 4 →
    (announced c ≤ rest.length + 1 → front.length + announced c + unchanged.toNat ≤ target * 4 + 1) ∧
      (rest.length + 1 < announced c → content.length ≤ target * 4 + 1)

-- No character that is asked for is a NUL, which would end the text.
def Printed (content : Bytes) (target : Nat) : Prop :=
  ∀ codes, (∀ code ∈ codes, Scalar code) → content = encode codes → (0 : UInt8) ∉ encode (codes.take target)

def Admitted (target : Nat) : Prop :=
  target ≠ 0 ∧ target ≤ sizeMax / 4 - 1

section Leads

variable {c : UInt8} {text front rest : Bytes}

theorem lead_tail (c : UInt8) : isLead c = !isTail c := by
  rw [isLead, bne, tail_bits]

theorem leads_append (first second : Bytes) : leads (first ++ second) = leads first + leads second :=
  List.countP_append

theorem leads_le (text : Bytes) : leads text ≤ text.length :=
  List.countP_le_length

theorem leads_cons_lead (lead : isLead c = true) (text : Bytes) : leads (c :: text) = leads text + 1 :=
  List.countP_cons_of_pos lead

theorem leads_tails (tails : ∀ c ∈ text, isTail c = true) : leads text = 0 := by
  rw [leads, List.countP_eq_zero]
  intro c inside
  rw [lead_tail, tails c inside]
  exact Bool.false_ne_true

theorem lead_unique {front' rest' : Bytes} {c' : UInt8} (lead : isLead c = true) (lead' : isLead c' = true)
    (same : front ++ c :: rest = front' ++ c' :: rest') (number : leads front = leads front') :
    front = front' ∧ c = c' ∧ rest = rest' := by
  rcases List.append_eq_append_iff.mp same with ⟨a, before, after⟩ | ⟨a, before, after⟩
  · cases a with
    | nil =>
      rw [List.append_nil] at before
      rw [List.nil_append, List.cons.injEq] at after
      exact ⟨before.symm, after⟩
    | cons b a =>
      rw [List.cons_append, List.cons.injEq] at after
      rw [before, leads_append, ← after.1, leads_cons_lead lead] at number
      omega
  · cases a with
    | nil =>
      rw [List.append_nil] at before
      rw [List.nil_append, List.cons.injEq] at after
      exact ⟨before, after.1.symm, after.2.symm⟩
    | cons b a =>
      rw [List.cons_append, List.cons.injEq] at after
      rw [before, leads_append, ← after.1, leads_cons_lead lead'] at number
      omega

theorem back_to_lead (lead : isLead c = true) (front : Bytes) {tails : Bytes} (all : ∀ d ∈ tails, isTail d = true) (rest : Bytes) :
    backTo (front ++ c :: (tails ++ rest)) (front.length + tails.length) = front.length := by
  induction tails using List.reverseRecOn generalizing rest with
  | nil =>
    cases front with
    | nil => rfl
    | cons d front =>
      have here : (d :: front ++ c :: ([] ++ rest)).getD (front.length + 1) 0 = c := by simp
      rw [List.length_cons, List.length_nil, Nat.add_zero, backTo, here, if_pos lead]
  | append_singleton tails d ih =>
    have here : (front ++ c :: (tails ++ [d] ++ rest)).getD (front.length + (tails.length + 1)) 0 = d := by
      rw [List.getD_eq_getElem?_getD, List.getElem?_append_right (by omega), Nat.add_sub_cancel_left]
      simp
    have tail : isLead d = false := by
      rw [lead_tail, all d (by simp)]
      rfl
    rw [List.length_append, List.length_singleton, ← Nat.add_assoc, backTo, Nat.add_assoc, here, tail, if_neg Bool.false_ne_true,
      List.append_assoc]
    exact ih (fun e inside => all e (List.mem_append_left _ inside)) ([d] ++ rest)

theorem back_to_le (text : Bytes) (n : Nat) : backTo text n ≤ n := by
  induction n with
  | zero => exact Nat.le_refl _
  | succ n ih =>
    rw [backTo]
    split_ifs
    · exact Nat.le_refl _
    · exact Nat.le_succ_of_le ih

theorem announced_pos (c : UInt8) : 1 ≤ announced c := by
  unfold announced
  split_ifs <;> decide

theorem sequence_shape {code : Nat} (scalar : Scalar code) : ∃ c tails, Utf8.sequence code = c :: tails ∧ isLead c = true ∧
    announced c = tails.length + 1 ∧ ∀ d ∈ tails, isTail d = true := by
  have tails := sequence_tails code
  have shape : ∃ c rest, Utf8.sequence code = c :: rest ∧ isLead c = true ∧ announced c = rest.length + 1 := by
    have one : ∀ n < 0x80, isLead (.ofNat n) = true ∧ announced (.ofNat n) = 1 := by decide
    have two : ∀ n < 0x20, isLead (.ofNat (0xc0 + n)) = true ∧ announced (.ofNat (0xc0 + n)) = 2 := by decide
    have three : ∀ n < 0x10, isLead (.ofNat (0xe0 + n)) = true ∧ announced (.ofNat (0xe0 + n)) = 3 := by decide
    have four : ∀ n < 0x08, isLead (.ofNat (0xf0 + n)) = true ∧ announced (.ofNat (0xf0 + n)) = 4 := by decide
    unfold Scalar at scalar
    unfold Utf8.sequence
    split_ifs with ascii short wide
    · exact ⟨_, _, rfl, one code ascii⟩
    · exact ⟨_, _, rfl, two (code / 64) (by omega)⟩
    · exact ⟨_, _, rfl, three (code / 4096) (by omega)⟩
    · exact ⟨_, _, rfl, four (code / 262144) (by omega)⟩
  obtain ⟨c, rest, same, lead, width⟩ := shape
  rw [same] at tails
  exact ⟨c, rest, same, lead, width, tails⟩

theorem leads_sequence {code : Nat} (scalar : Scalar code) : leads (Utf8.sequence code) = 1 := by
  obtain ⟨c, tails, same, lead, _, all⟩ := sequence_shape scalar
  rw [same, leads_cons_lead lead, leads_tails all]

theorem leads_encode {codes : List Nat} (scalars : ∀ code ∈ codes, Scalar code) : leads (encode codes) = codes.length := by
  induction codes with
  | nil => rfl
  | cons code codes ih =>
    rw [encode_cons, leads_append, leads_sequence (scalars code List.mem_cons_self),
      ih fun other inside => scalars other (List.mem_cons_of_mem _ inside), List.length_cons, Nat.add_comm]

end Leads

section Opening

variable {short : Nat → Nat} {content : Bytes} {target : Nat} {reading : Reading}

structure Opening (content : Bytes) (target : Nat) (reading : Reading) : Prop where
  parts : reading.text ++ reading.rest = content
  counted : reading.characters = leads reading.text
  few : leads reading.text ≤ target
  room : reading.text.length ≤ target * 4
  touched : reading.touched = reading.text.length
  last : leads reading.text = target → reading.text = [] ∨ ∃ front c, reading.text = front ++ [c] ∧ isLead c = true

theorem given_front (short : Nat → Nat) (want : Nat) (reading : Reading) :
    given short want reading <+: reading.rest ∧ (given short want reading).length ≤ want :=
  ⟨List.take_prefix _ _, Nat.le_trans (List.length_take_le _ _) (Nat.min_le_left _ _)⟩

theorem given_none {want : Nat} (some_ : want ≠ 0) (none_ : given short want reading = []) : reading.rest = [] := by
  rw [given, List.take_eq_nil_iff] at none_
  exact none_.resolve_left (by omega)

theorem read_step_preserves {next : Reading} (opening : Opening content target reading) (step : readStep short target reading = some next) :
    Opening content target next := by
  rw [readStep] at step
  dsimp only at step
  split_ifs at step with more none_ empty
  cases step
  set got := given short (min (target - reading.characters) (target * 4 - reading.text.length)) reading with shape
  obtain ⟨⟨later, rest⟩, size⟩ := given_front short (min (target - reading.characters) (target * 4 - reading.text.length)) reading
  rw [← shape] at rest size
  have parts := opening.parts
  have bound := leads_le got
  have room := opening.room
  have few := opening.few
  have counted := opening.counted
  refine ⟨?_, ?_, ?_, ?_, ?_, ?_⟩
  · rw [Reading.took, ← parts, ← rest, List.drop_left, List.append_assoc]
  · rw [Reading.took, leads_append, opening.counted]
    rfl
  · rw [Reading.took, leads_append]
    omega
  · rw [Reading.took, List.length_append]
    omega
  · rw [Reading.took, List.length_append, opening.touched]
    exact Nat.max_eq_right (Nat.le_add_right _ _)
  · intro whole
    rw [Reading.took, leads_append] at whole
    have all : leads got = got.length := by omega
    have leadAll := List.countP_eq_length.mp all
    obtain ⟨front, c, same⟩ := List.eq_nil_or_concat got |>.resolve_left empty
    rw [List.concat_eq_append] at same
    refine .inr ⟨reading.text ++ front, c, ?_, leadAll c (by rw [same]; simp)⟩
    rw [Reading.took, same, List.append_assoc]

theorem opening_start (content : Bytes) (target : Nat) : Opening content target ⟨[], content, 0, 0, 0⟩ where
  parts := rfl
  counted := rfl
  few := Nat.zero_le _
  room := Nat.zero_le _
  touched := rfl
  last := fun _ => .inl rfl

theorem opened_opening (short : Nat → Nat) (content : Bytes) (target : Nat) : Opening content target (opened short content target) :=
  iterate_invariant (fun _ _ => read_step_preserves) (opening_start content target)

theorem took_smaller {got : Bytes} (front : got <+: reading.rest) (some_ : got ≠ []) (characters : Nat) :
    (reading.took got characters).rest.length < reading.rest.length := by
  have size := front.length_le
  have long := List.length_pos_iff.mpr some_
  rw [Reading.took, List.length_drop]
  omega

theorem read_step_smaller {next : Reading} (step : readStep short target reading = some next) : next.rest.length < reading.rest.length := by
  rw [readStep] at step
  dsimp only at step
  split_ifs at step with more none_ empty
  cases step
  exact took_smaller (given_front short _ reading).1 empty _

theorem opened_stopped (short : Nat → Nat) (content : Bytes) (target : Nat) : readStep short target (opened short content target) = none :=
  iterate_stopped (fun reading => reading.rest.length) (fun _ _ => read_step_preserves) (fun _ _ _ => read_step_smaller)
    (opening_start content target) (Nat.le_succ _)

end Opening

section Completing

variable {short : Nat → Nat} {content : Bytes} {target start width : Nat} {before reading : Reading}

structure Completing (content : Bytes) (start width : Nat) (before reading : Reading) : Prop where
  parts : reading.text ++ reading.rest = content
  longer : before.text <+: reading.text
  room : reading.text.length ≤ max before.text.length (start + width)
  touched : reading.touched = reading.text.length

theorem complete_step_preserves {next : Reading} (completing : Completing content start width before reading)
    (step : completeStep short start width reading = some next) : Completing content start width before next := by
  rw [completeStep] at step
  dsimp only at step
  split_ifs at step with more empty
  cases step
  set got := given short (width - (reading.text.length - start)) reading with shape
  obtain ⟨⟨later, rest⟩, size⟩ := given_front short (width - (reading.text.length - start)) reading
  rw [← shape] at rest size
  have parts := completing.parts
  have room := completing.room
  refine ⟨?_, ?_, ?_, ?_⟩
  · rw [Reading.took, ← parts, ← rest, List.drop_left, List.append_assoc]
  · exact completing.longer.trans (List.prefix_append _ _)
  · rw [Reading.took, List.length_append]
    omega
  · rw [Reading.took, List.length_append, completing.touched]
    exact Nat.max_eq_right (Nat.le_add_right _ _)

theorem complete_step_smaller {next : Reading} (step : completeStep short start width reading = some next) :
    next.rest.length < reading.rest.length := by
  rw [completeStep] at step
  dsimp only at step
  split_ifs at step with more empty
  cases step
  exact took_smaller (given_front short _ reading).1 empty _

theorem completed_cases (short : Nat → Nat) (opening : Opening content target before) (some_ : before.text ≠ []) :
    let after := completed short content before
    completeStep short (startOf before) (widthOf before) after = none ∧
      Completing content (startOf before) (widthOf before) before after ∧
        (after.text.length - startOf before < widthOf before → after.text = content) := by
  have begun : Completing content (startOf before) (widthOf before) before before :=
    ⟨opening.parts, List.prefix_refl _, Nat.le_max_left _ _, opening.touched⟩
  have short_ : before.rest.length ≤ fuelFor content := by
    rw [← opening.parts, fuelFor, List.length_append]
    omega
  have stopped : completeStep short (startOf before) (widthOf before) (completed short content before) = none := by
    rw [completed, if_neg some_]
    exact iterate_stopped (fun reading => reading.rest.length) (fun _ _ => complete_step_preserves) (fun _ _ _ => complete_step_smaller)
      begun short_
  have ended : Completing content (startOf before) (widthOf before) before (completed short content before) := by
    rw [completed, if_neg some_]
    exact iterate_invariant (fun _ _ => complete_step_preserves) begun
  refine ⟨stopped, ended, fun more => ?_⟩
  rw [completeStep, if_pos more] at stopped
  dsimp only at stopped
  split_ifs at stopped with empty
  have none_ := given_none (by omega) empty
  have parts := ended.parts
  rwa [none_, List.append_nil] at parts

end Completing

section Outcomes

variable {short : Nat → Nat} {content : Bytes} {target : Nat}

theorem opened_cases (some_ : target ≠ 0) (short : Nat → Nat) (content : Bytes) :
    let before := opened short content target
    (∃ front c, before.text = front ++ [c] ∧ isLead c = true ∧ leads front + 1 = target ∧ before.characters = target) ∨
      (before.characters < target ∧ before.text = content ∧ leads content < target ∧ before.text.length < target * 4) ∨
        before.characters < target ∧ leads before.text < target ∧ before.text.length = target * 4 := by
  have opening := opened_opening short content target
  have stopped := opened_stopped short content target
  have few := opening.few
  have room := opening.room
  rcases Nat.lt_or_eq_of_le few with less | whole
  · have more : (opened short content target).characters < target := by rwa [opening.counted]
    rcases Nat.lt_or_eq_of_le room with free | full
    · rw [readStep, if_pos more] at stopped
      dsimp only at stopped
      split_ifs at stopped with nothing empty
      · omega
      · have none_ := given_none nothing empty
        have parts := opening.parts
        rw [none_, List.append_nil] at parts
        exact .inr (.inl ⟨more, parts, by rwa [parts] at less, free⟩)
    · exact .inr (.inr ⟨more, less, full⟩)
  · rcases opening.last whole with none_ | ⟨front, c, same, lead⟩
    · rw [none_] at whole
      exact absurd whole.symm some_
    · refine .inl ⟨front, c, same, lead, ?_, by rw [opening.counted, whole]⟩
      rw [same, leads_append, leads_cons_lead lead] at whole
      exact whole

theorem start_of_lead {front tails : Bytes} {c : UInt8} {before : Reading} (same : before.text = front ++ c :: tails)
    (lead : isLead c = true) (all : ∀ d ∈ tails, isTail d = true) : startOf before = front.length ∧ widthOf before = announced c := by
  have back := back_to_lead lead front all []
  rw [List.append_nil] at back
  have start : startOf before = front.length := by
    have size : (front ++ c :: tails).length - 1 = front.length + tails.length := by
      rw [List.length_append, List.length_cons]
      omega
    rw [startOf, same, size, back]
  refine ⟨start, ?_⟩
  have here : (front ++ c :: tails).getD front.length 0 = c := by simp
  rw [widthOf, start, same, here]

theorem lead_outcome (short : Nat → Nat) {before : Reading} (opening : Opening content target before) {front : Bytes} {c : UInt8}
    (same : before.text = front ++ [c]) (lead : isLead c = true) :
    let after := completed short content before
    after.touched = after.text.length ∧ after.text <+: content ∧
      (front.length + announced c ≤ content.length →
        usedOf before after = front.length + announced c ∧ after.text.length = front.length + announced c) ∧
      (content.length < front.length + announced c → usedOf before after = front.length ∧ after.text = content) := by
  obtain ⟨start, width⟩ := start_of_lead same lead fun d inside => by cases inside
  have some_ : before.text ≠ [] := by
    rw [same]
    exact List.append_ne_nil_of_right_ne_nil _ (List.cons_ne_nil _ _)
  obtain ⟨_, ended, more⟩ := completed_cases short opening some_
  have inside : (completed short content before).text <+: content := ⟨_, ended.parts⟩
  have room := ended.room
  have size := inside.length_le
  rw [start, width] at room more
  rw [same, List.length_append, List.length_singleton] at room
  have pos := announced_pos c
  refine ⟨ended.touched, inside, fun whole => ?_, fun cut => ?_⟩
  · have full : (completed short content before).text.length = front.length + announced c := by
      by_contra other
      have all := congrArg List.length (more (by omega))
      omega
    refine ⟨?_, full⟩
    rw [usedOf, if_neg (by rw [start, width]; omega), full]
  · have less : (completed short content before).text.length - front.length < announced c := by omega
    exact ⟨by rw [usedOf, if_pos ⟨some_, by rwa [start, width]⟩, start], more less⟩

theorem end_outcome (short : Nat → Nat) {before : Reading} (opening : Opening content target before) (same : before.text = content) :
    let after := completed short content before
    after.touched = after.text.length ∧ after.text = content ∧ usedOf before after ≤ content.length := by
  dsimp only
  by_cases empty : before.text = []
  · have after : completed short content before = before := if_pos empty
    rw [after, usedOf, if_neg fun both => both.1 empty]
    exact ⟨opening.touched, same, same ▸ Nat.le_refl _⟩
  · obtain ⟨_, ended, _⟩ := completed_cases short opening empty
    have inside : (completed short content before).text <+: content := ⟨_, ended.parts⟩
    have longer := ended.longer
    rw [same] at longer
    have after := inside.eq_of_length_le longer.length_le
    refine ⟨ended.touched, after, ?_⟩
    rw [usedOf, after]
    split_ifs with more
    · exact Nat.le_trans (back_to_le _ _) (by rw [same]; omega)
    · exact Nat.le_refl _

end Outcomes

section Exactness

variable {short : Nat → Nat} {content : Bytes} {target : Nat} {unchanged : Bool}

theorem admitted_outcome (admitted : Admitted target) : chutniReadCharacterSample short content target unchanged =
    let before := opened short content target
    if before.characters < target ∧ before.text.length = target * 4 then ⟨none, before.touched⟩
    else
      let after := completed short content before
      let used := usedOf before after
      if unchanged then ⟨some (cstr (after.text.take used)), max after.touched (used + 1)⟩
      else ⟨none, after.touched⟩ := by
  have inner : ¬(target = 0 ∨ target > sizeMax / 4 - 1) := not_or.mpr ⟨admitted.1, Nat.not_lt.mpr admitted.2⟩
  rw [chutniReadCharacterSample, if_neg inner]

theorem inside_iff (admitted : Admitted target) :
    (chutniReadCharacterSample short content target unchanged).touched ≤ target * 4 + 1 ↔ Fits content target unchanged := by
  have opening := opened_opening short content target
  have short_ {front : Bytes} {c : UInt8} {rest : Bytes} (same : content = front ++ c :: rest) (lead : isLead c = true)
      (number : leads front + 1 = target) : target ≤ leads content := by
    rw [same, leads_append, leads_cons_lead lead]
    omega
  rw [admitted_outcome admitted]
  dsimp only
  rcases opened_cases admitted.1 short content with ⟨front, c, same, lead, number, characters⟩ | ⟨more, same, few, free⟩ | ⟨more, few, full⟩
  · have before : ¬((opened short content target).characters < target ∧ (opened short content target).text.length = target * 4) :=
      fun both => by omega
    obtain ⟨touched, _, whole, cut⟩ := lead_outcome short opening same lead
    have room := opening.room
    have parts := opening.parts
    rw [same, List.append_assoc, List.singleton_append] at parts
    rw [same, List.length_append, List.length_singleton] at room
    have size := congrArg List.length parts
    rw [List.length_append, List.length_cons] at size
    rw [if_neg before]
    have fits : Fits content target unchanged ↔
        (announced c ≤ (opened short content target).rest.length + 1 → front.length + announced c + unchanged.toNat ≤ target * 4 + 1) ∧
          ((opened short content target).rest.length + 1 < announced c → content.length ≤ target * 4 + 1) := by
      constructor
      · exact fun all => all front c _ parts.symm lead number (by omega)
      · intro here front' c' rest' shape lead' number' _
        obtain ⟨rfl, rfl, rfl⟩ := lead_unique lead lead' (parts.trans shape) (by omega)
        exact here
    rw [fits]
    by_cases complete : front.length + announced c ≤ content.length
    · obtain ⟨used, long⟩ := whole complete
      cases unchanged with
      | true =>
        rw [if_pos rfl, used, touched, long, Bool.toNat_true]
        dsimp only
        omega
      | false =>
        rw [if_neg Bool.false_ne_true, touched, long, Bool.toNat_false]
        dsimp only
        omega
    · obtain ⟨used, all⟩ := cut (Nat.not_le.mp complete)
      cases unchanged with
      | true =>
        rw [if_pos rfl, used, touched, all, Bool.toNat_true]
        dsimp only
        omega
      | false =>
        rw [if_neg Bool.false_ne_true, touched, all, Bool.toNat_false]
        dsimp only
        omega
  · have before : ¬((opened short content target).characters < target ∧ (opened short content target).text.length = target * 4) :=
      fun both => by omega
    obtain ⟨touched, all, used⟩ := end_outcome short opening same
    rw [if_neg before, touched, all]
    rw [same] at free
    refine iff_of_true ?_ fun front c rest shape lead number _ => absurd (short_ shape lead number) (by omega)
    cases unchanged with
    | true =>
      rw [if_pos rfl]
      dsimp only
      omega
    | false =>
      rw [if_neg Bool.false_ne_true]
      dsimp only
      omega
  · rw [if_pos ⟨more, full⟩]
    refine iff_of_true (by dsimp only; rw [opening.touched]; omega) fun front c rest shape lead number less => ?_
    have parts := opening.parts
    have early : front ++ [c] <+: content := ⟨rest, by rw [shape, List.append_assoc, List.singleton_append]⟩
    have read : (opened short content target).text <+: content := ⟨_, parts⟩
    have front_ : front ++ [c] <+: (opened short content target).text := by
      apply List.prefix_of_prefix_length_le early read
      rw [List.length_append, List.length_singleton, full]
      exact less
    obtain ⟨behind, whole⟩ := front_
    rw [← whole, leads_append, leads_append, leads_cons_lead lead] at few
    omega

theorem front_of_file {text : Bytes} (found : (chutniReadCharacterSample short content target unchanged).text = some text) :
    text <+: content := by
  by_cases admitted : Admitted target
  · have opening := opened_opening short content target
    rw [admitted_outcome admitted] at found
    dsimp only at found
    split_ifs at found with none_ same
    cases found
    have inside : (completed short content (opened short content target)).text <+: content := by
      by_cases empty : (opened short content target).text = []
      · have after : completed short content (opened short content target) = opened short content target := if_pos empty
        rw [after, empty]
        exact List.nil_prefix
      · obtain ⟨_, ended, _⟩ := completed_cases short opening empty
        exact ⟨_, ended.parts⟩
    exact ((cstr_start _).trans (List.take_prefix _ _)).trans inside
  · have outer : target = 0 ∨ target > sizeMax / 4 - 1 := by
      by_contra inner
      exact admitted ⟨fun zero_ => inner (.inl zero_), Nat.not_lt.mp fun large => inner (.inr large)⟩
    rw [chutniReadCharacterSample, if_pos outer] at found
    cases found

theorem encode_length_le (codes : List Nat) : (encode codes).length ≤ 4 * codes.length := by
  induction codes with
  | nil => exact Nat.le_refl _
  | cons code codes ih =>
    have one := sequence_short code
    rw [encode_cons, List.length_append, List.length_cons]
    omega

theorem encode_split {codes : List Nat} (scalars : ∀ code ∈ codes, Scalar code) {n : Nat} (inside : n < codes.length) :
    ∃ c tails, encode codes = encode (codes.take n) ++ c :: (tails ++ encode (codes.drop (n + 1))) ∧ isLead c = true ∧
      announced c = tails.length + 1 ∧ (∀ d ∈ tails, isTail d = true) ∧
        encode (codes.take (n + 1)) = encode (codes.take n) ++ c :: tails ∧ leads (encode (codes.take n)) = n := by
  obtain ⟨c, tails, same, lead, width, all⟩ := sequence_shape (scalars _ (List.getElem_mem inside))
  have upTo : encode (codes.take (n + 1)) = encode (codes.take n) ++ c :: tails := by
    rw [List.take_succ_eq_append_getElem inside, encode_append, encode_cons, same]
    simp [encode]
  refine ⟨c, tails, ?_, lead, width, all, upTo, ?_⟩
  · have whole := congrArg encode (List.take_append_drop (n + 1) codes)
    rw [encode_append, upTo, List.append_assoc, List.cons_append] at whole
    exact whole.symm
  · rw [leads_encode fun code inside => scalars code (List.mem_of_mem_take inside), List.length_take]
    omega

theorem valid_used (short : Nat → Nat) (admitted : Admitted target) {codes : List Nat} (scalars : ∀ code ∈ codes, Scalar code)
    (same : content = encode codes) :
    let before := opened short content target
    let after := completed short content before
    ¬(before.characters < target ∧ before.text.length = target * 4) ∧
      after.text.take (usedOf before after) = encode (codes.take target) := by
  have opening := opened_opening short content target
  have number := leads_encode scalars
  rw [← same] at number
  obtain ⟨n, rfl⟩ : ∃ n, target = n + 1 := ⟨target - 1, (Nat.succ_pred_eq_of_ne_zero admitted.1).symm⟩
  dsimp only
  rcases opened_cases admitted.1 short content with ⟨front, c, ends, lead, count, characters⟩ | ⟨more, ends, few, free⟩ | ⟨more, few, full⟩
  · have parts := opening.parts
    rw [ends, List.append_assoc, List.singleton_append] at parts
    have long : n < codes.length := by
      rw [← number, ← parts, leads_append, leads_cons_lead lead]
      omega
    obtain ⟨c', tails, shape, lead', width, _, upTo, before⟩ := encode_split scalars long
    obtain ⟨rfl, rfl, _⟩ := lead_unique lead lead' (parts.trans (same.trans shape)) (by omega)
    obtain ⟨_, inside, whole, _⟩ := lead_outcome short opening ends lead
    have size : (encode (codes.take n)).length + announced c = (encode (codes.take (n + 1))).length := by
      rw [upTo, List.length_append, List.length_cons, width]
    have room : (encode (codes.take n)).length + announced c ≤ content.length := by
      rw [same, shape, List.length_append, List.length_cons, List.length_append, width]
      omega
    obtain ⟨used, full⟩ := whole room
    refine ⟨fun both => by omega, ?_⟩
    rw [used, ← full, List.take_length]
    apply (List.prefix_of_prefix_length_le inside ?_ (by rw [full, size])).eq_of_length (by rw [full, size])
    rw [same]
    exact ⟨encode (codes.drop (n + 1)), by rw [← encode_append, List.take_append_drop]⟩
  · refine ⟨fun both => by omega, ?_⟩
    have all : codes.take (n + 1) = codes := List.take_of_length_le (by omega)
    obtain ⟨_, whole, _⟩ := end_outcome short opening ends
    have used : usedOf (opened short content (n + 1)) (completed short content (opened short content (n + 1))) = content.length := by
      rw [usedOf, if_neg, whole]
      rintro ⟨some_, cut⟩
      have last : codes.length - 1 < codes.length := by
        cases codes with
        | nil => exact absurd (ends.trans same) some_
        | cons code codes => exact Nat.lt_succ_self _
      obtain ⟨c, tails, shape, lead, width, tail, _, _⟩ := encode_split scalars last
      rw [List.drop_of_length_le (by omega), show encode [] = [] from rfl, List.append_nil] at shape
      obtain ⟨start, wide⟩ := start_of_lead (ends.trans (same.trans shape)) lead tail
      rw [start, wide, width, whole, same, shape, List.length_append, List.length_cons] at cut
      omega
    rw [all, used, whole, List.take_length, same]
  · exfalso
    have parts := opening.parts
    have inside : (opened short content (n + 1)).text <+: content := ⟨_, parts⟩
    have long := inside.length_le
    have short_ : content.length ≤ 4 * codes.length := same ▸ encode_length_le codes
    obtain ⟨c, tails, shape, lead, width, _, upTo, before⟩ := @encode_split codes scalars n (by omega)
    have few_ := encode_length_le (codes.take (n + 1))
    rw [List.length_take] at few_
    have early : encode (codes.take (n + 1)) <+: content :=
      ⟨encode (codes.drop (n + 1)), by rw [← encode_append, List.take_append_drop, same]⟩
    have front := List.prefix_of_prefix_length_le early inside (by omega)
    obtain ⟨behind, whole⟩ := front
    rw [← whole, upTo, leads_append, leads_append, before, leads_cons_lead lead] at few
    omega

theorem whole_iff (admitted : Admitted target) : (∀ codes text, (∀ code ∈ codes, Scalar code) → content = encode codes →
      (chutniReadCharacterSample short content target unchanged).text = some text → text = encode (codes.take target)) ↔
        (unchanged = true → Printed content target) := by
  have found {codes : List Nat} (scalars : ∀ code ∈ codes, Scalar code) (same : content = encode codes) :
      (chutniReadCharacterSample short content target unchanged).text =
        if unchanged then some (cstr (encode (codes.take target))) else none := by
    obtain ⟨room, used⟩ := valid_used short admitted scalars same
    rw [admitted_outcome admitted]
    dsimp only
    rw [if_neg room, used]
    cases unchanged <;> rfl
  constructor
  · intro whole kept codes scalars same
    have all := whole codes _ scalars same (by rw [found scalars same, if_pos kept])
    rw [← all]
    exact cstr_text _
  · intro printed codes text scalars same read
    rw [found scalars same] at read
    split_ifs at read with kept
    rw [← Option.some.inj read]
    exact cstr_self (printed kept codes scalars same)

-- The sample is exact just when the last character fits for all that its first byte says, and no character is a NUL.
theorem sample_exact_iff (short : Nat → Nat) (content : Bytes) (target : Nat) (unchanged : Bool) :
    Exact short content target unchanged ↔
      (Admitted target → Fits content target unchanged ∧ (unchanged = true → Printed content target)) := by
  constructor
  · intro exact_ admitted
    exact ⟨(inside_iff admitted).mp exact_.inside, (whole_iff admitted).mp exact_.whole⟩
  · intro fits
    have complete : completeStep short (startOf (opened short content target)) (widthOf (opened short content target))
        (completed short content (opened short content target)) = none ∨ (opened short content target).text = [] := by
      by_cases empty : (opened short content target).text = []
      · exact .inr empty
      · exact .inl (completed_cases short (opened_opening short content target) empty).1
    by_cases admitted : Admitted target
    · obtain ⟨inside, printed⟩ := fits admitted
      exact ⟨opened_stopped short content target, complete, (inside_iff admitted).mpr inside, fun _ => front_of_file,
        (whole_iff admitted).mpr printed⟩
    · have outer : target = 0 ∨ target > sizeMax / 4 - 1 := by
        by_contra inner
        exact admitted ⟨fun zero_ => inner (.inl zero_), Nat.not_lt.mp fun large => inner (.inr large)⟩
      have outcome : chutniReadCharacterSample short content target unchanged = ⟨none, 0⟩ := if_pos outer
      refine ⟨opened_stopped short content target, complete, ?_, fun _ => front_of_file, fun codes text _ _ read => ?_⟩
      · rw [outcome]
        exact Nat.zero_le _
      · rw [outcome] at read
        cases read

-- Three continuation bytes and a lead byte fill the buffer of one character, and the rest of it goes behind.
theorem lead_at_the_end : ¬Exact (fun _ => 0) [0x80, 0x80, 0x80, 0xf0, 0x80, 0x80, 0x80] 1 true :=
  fun exact_ => absurd exact_.inside (by decide)

end Exactness

end SamosaChat.Sample
