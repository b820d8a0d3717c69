import SamosaChat.Tokenizer.Unicode
import SamosaChat.Lib.Regex

set_option autoImplicit false

namespace SamosaChat.Tokenizer

open Utf8 Text Regex Regex.Pattern

section Shipped

variable (classes : Classes)

def oneOf (p : Nat → Bool) : Pattern CodePoint :=
  one fun next => p next.cp

def folds (letter c : Nat) : Bool :=
  c == letter || c + 32 == letter

def quote : Pattern CodePoint :=
  oneOf (· == 0x27)

def quoted (letter : Nat) : Pattern CodePoint :=
  seq quote (oneOf (folds letter))

def quotedPair (letter second : Nat) : Pattern CodePoint :=
  seq quote (seq (oneOf (folds letter)) (oneOf (folds second)))

-- The alternatives of the Split pattern of tokenizer.json, each under its text.
-- (?i:'s|'t|'re|'ve|'m|'ll|'d)
def contractions : Pattern CodePoint :=
  alt (quoted 0x73) (alt (quoted 0x74) (alt (quotedPair 0x72 0x65) (alt (quotedPair 0x76 0x65) (alt (quoted 0x6d)
    (alt (quotedPair 0x6c 0x6c) (quoted 0x64))))))

-- [^\r\n\p{L}\p{N}]?\p{L}+
def words : Pattern CodePoint :=
  seq (opt (oneOf fun c => !isNl c && !classes.isL c && !classes.isN c)) (plus (oneOf classes.isL))

-- \p{N}
def number : Pattern CodePoint :=
  oneOf classes.isN

--  ?[^\s\p{L}\p{N}]+[\r\n]*
def marks : Pattern CodePoint :=
  seq (opt (oneOf (· == 0x20)))
    (seq (plus (oneOf fun c => !classes.isS c && !classes.isL c && !classes.isN c)) (star (oneOf isNl)))

-- \s*[\r\n]+
def lineEnds : Pattern CodePoint :=
  seq (star (oneOf classes.isS)) (plus (oneOf isNl))

-- \s+(?!\S)
def innerSpaces : Pattern CodePoint :=
  seq (plus (oneOf classes.isS)) (notAhead (oneOf fun c => !classes.isS c))

-- \s+
def anySpaces : Pattern CodePoint :=
  plus (oneOf classes.isS)

def splitPattern : Pattern CodePoint :=
  alt contractions (alt (words classes) (alt (number classes) (alt (marks classes) (alt (lineEnds classes)
    (alt (innerSpaces classes) (anySpaces classes))))))

end Shipped

def cpsOf (us : List CodePoint) : List Nat :=
  us.map CodePoint.cp

def Scans (r : Pattern CodePoint) (cut : List Nat → Option Nat) : Prop :=
  ∀ us, r.first us = (cut (cpsOf us)).map us.drop

theorem scans_alt {r s : Pattern CodePoint} {cut cut' : List Nat → Option Nat} (left : Scans r cut) (right : Scans s cut') :
    Scans (alt r s) fun cps => (cut cps).or (cut' cps) := by
  intro us
  rw [first_alt, left us, right us]
  cases taken : cut (cpsOf us) <;> simp [taken]

theorem folds_low {letter : Nat} (small : 0x61 ≤ letter ∧ letter ≤ 0x7a) (c : Nat) : folds letter c = (low c == letter) := by
  rw [Bool.eq_iff_iff, folds, Bool.or_eq_true, beq_iff_eq, beq_iff_eq, beq_iff_eq, low]
  split_ifs <;> omega

variable {a : CodePoint}

theorem quoted_first {letter : Nat} (here : a.cp = 0x27) (us : List CodePoint) :
    (quoted letter).first (a :: us) = (oneOf (folds letter)).first us := by
  rw [quoted, quote, oneOf, first_one_seq_cons, here]
  rfl

theorem quoted_pair_first {letter second : Nat} (here : a.cp = 0x27) (us : List CodePoint) :
    (quotedPair letter second).first (a :: us) = (seq (oneOf (folds letter)) (oneOf (folds second))).first us := by
  rw [quotedPair, quote, oneOf, first_one_seq_cons, here]
  rfl

theorem quoted_other (other : a.cp ≠ 0x27) (letter : Nat) (us : List CodePoint) : (quoted letter).first (a :: us) = none := by
  have no : (a.cp == 0x27) = false := beq_eq_false_iff_ne.mpr other
  rw [quoted, quote, oneOf, first_one_seq_cons, no]
  rfl

theorem quoted_pair_other (other : a.cp ≠ 0x27) (letter second : Nat) (us : List CodePoint) :
    (quotedPair letter second).first (a :: us) = none := by
  have no : (a.cp == 0x27) = false := beq_eq_false_iff_ne.mpr other
  rw [quotedPair, quote, oneOf, first_one_seq_cons, no]
  rfl

variable {c : Nat}

theorem contraction_other (other : c ≠ 0x27) (cps : List Nat) : contraction (c :: cps) = none := by
  unfold contraction
  split
  · next same => exact absurd (List.cons.inj same).1 other
  · rfl

theorem contractions_scan : Scans contractions contraction := by
  intro us
  cases us with
  | nil => rfl
  | cons a us =>
    by_cases here : a.cp = 0x27
    · simp only [contractions, first_alt, quoted_first here, quoted_pair_first here]
      cases us with
      | nil =>
        rw [cpsOf, List.map_cons, here]
        rfl
      | cons d us =>
        have small : ∀ letter ∈ [0x73, 0x74, 0x72, 0x65, 0x76, 0x6d, 0x6c, 0x64], 0x61 ≤ letter ∧ letter ≤ 0x7a := by decide
        simp only [List.forall_mem_cons] at small
        obtain ⟨s_, t_, r_, e_, v_, m_, l_, d_, _⟩ := small
        simp only [oneOf, first_one_cons, first_one_seq_cons, cpsOf, List.map_cons, here, contraction, folds_low s_,
          folds_low t_, folds_low r_, folds_low e_, folds_low v_, folds_low m_, folds_low l_, folds_low d_]
        generalize low d.cp = first
        by_cases known : first ∈ [0x73, 0x74, 0x72, 0x76, 0x6d, 0x6c, 0x64]
        · simp only [List.mem_cons, List.not_mem_nil, or_false] at known
          cases us with
          | nil => rcases known with rfl | rfl | rfl | rfl | rfl | rfl | rfl <;> rfl
          | cons d2 us =>
            simp only [first_one_cons, List.map_cons]
            generalize low d2.cp = second
            rcases known with rfl | rfl | rfl | rfl | rfl | rfl | rfl <;> simp
        · simp only [List.mem_cons, List.not_mem_nil, or_false, not_or] at known
          cases us <;> simp [known]
    · simp only [contractions, first_alt, quoted_other here, quoted_pair_other here, cpsOf, List.map_cons, contraction_other here]
      rfl

theorem drop_run {α : Type} (p : α → Bool) (xs : List α) : xs.drop (xs.takeWhile p).length = xs.dropWhile p := by
  induction xs with
  | nil => rfl
  | cons x xs ih =>
    rw [List.takeWhile_cons, List.dropWhile_cons]
    split_ifs
    · exact ih
    · rfl

theorem run_length (p : Nat → Bool) (us : List CodePoint) :
    ((cpsOf us).takeWhile p).length = (us.takeWhile fun next => p next.cp).length := by
  rw [cpsOf, List.takeWhile_map, List.length_map]
  rfl

theorem rest_cps (p : Nat → Bool) (us : List CodePoint) : (cpsOf us).dropWhile p = cpsOf (us.dropWhile fun next => p next.cp) := by
  rw [cpsOf, List.dropWhile_map]
  rfl

variable {classes : Classes}

theorem words_scan : Scans (words classes) (letters classes) := by
  intro us
  cases us with
  | nil => rfl
  | cons a us =>
    rw [words, oneOf, oneOf, first_opt_seq, first_one_seq_cons, first_plus_cons]
    simp only [cpsOf, List.map_cons, letters]
    cases letter : classes.isL a.cp with
    | true =>
      simp only [Bool.not_true, Bool.and_false, Bool.false_and, Bool.false_eq_true, if_false, if_true, Option.none_or,
        List.takeWhile_cons, letter, List.length_cons, Option.map_some, List.drop_succ_cons]
      rw [← cpsOf, run_length, drop_run]
    | false =>
      cases line : isNl a.cp with
      | true => simp
      | false =>
        cases digit : classes.isN a.cp with
        | true => simp
        | false =>
          simp only [Bool.not_false, Bool.and_self, if_true, Bool.false_eq_true, if_false, Option.or_none]
          cases us with
          | nil => rfl
          | cons b us =>
            rw [first_plus_cons, List.map_cons]
            cases letter' : classes.isL b.cp with
            | true =>
              simp only [if_true, Option.map_some, letter', List.takeWhile_cons, List.length_cons]
              rw [← cpsOf, run_length, Nat.add_comm, List.drop_succ_cons, List.drop_succ_cons, drop_run]
            | false => simp [letter']

theorem number_scan : Scans (number classes) fun cps => (numbers classes cps).map fun _ => 1 := by
  intro us
  cases us with
  | nil => rfl
  | cons a us =>
    rw [number, oneOf, first_one_cons]
    simp only [cpsOf, List.map_cons, numbers]
    cases classes.isN a.cp <;> simp

theorem mark_run (us : List CodePoint) : us.drop (others.run classes (cpsOf us)) =
      (us.dropWhile fun next => isOther classes next.cp).dropWhile fun next => isNl next.cp := by
  rw [others.run, run_length, rest_cps, run_length, ← List.drop_drop, drop_run, drop_run]

theorem marks_first (a : CodePoint) (us : List CodePoint) :
    (seq (plus (oneOf (isOther classes))) (star (oneOf isNl))).first (a :: us) =
      if isOther classes a.cp then some ((a :: us).drop (others.run classes (cpsOf (a :: us)))) else none := by
  have always (us : List CodePoint) : ((star (oneOf isNl)).first us).isSome = true := by
    rw [oneOf, first_run]
    rfl
  rw [mark_run, oneOf, first_plus_seq_cons always]
  by_cases other : isOther classes a.cp = true
  · rw [if_pos other, if_pos other, oneOf, first_run, List.dropWhile_cons, if_pos other]
  · rw [if_neg other, if_neg other]

theorem marks_scan : Scans (marks classes) (others classes) := by
  intro us
  cases us with
  | nil => rfl
  | cons a us =>
    change (seq (opt (oneOf (· == 0x20))) (seq (plus (oneOf (isOther classes))) (star (oneOf isNl)))).first (a :: us) = _
    rw [first_opt_seq, oneOf, first_one_seq_cons, marks_first]
    by_cases space : a.cp = 0x20
    · rw [if_pos (beq_iff_eq.mpr space)]
      cases us with
      | nil =>
        have none_ : (seq (plus (oneOf (isOther classes))) (star (oneOf isNl))).first [] = none := rfl
        rw [none_, Option.none_or, cpsOf, List.map_cons, space]
        simp only [List.map_nil, others]
        split_ifs <;> rfl
      | cons b us =>
        rw [marks_first]
        simp only [cpsOf, List.map_cons, space, others]
        by_cases other : isOther classes b.cp = true
        · rw [if_pos other, if_pos other, Option.map_some, Nat.add_comm, List.drop_succ_cons]
          rfl
        · rw [if_neg other, if_neg other, Option.none_or]
          split_ifs <;> rfl
    · rw [if_neg (by simpa using space), Option.none_or]
      have plain : others classes (cpsOf (a :: us)) =
          if isOther classes a.cp then some (others.run classes (cpsOf (a :: us))) else none := by
        rw [cpsOf, List.map_cons, others.eq_def]
        split
        · next same => exact absurd (List.cons.inj same).1 space
        · next same =>
            obtain ⟨rfl, rfl⟩ := List.cons.inj same
            rfl
        · next same => cases same
      rw [plain]
      split_ifs <;> rfl

section Spaces

def isSpaceAt (classes : Classes) (next : CodePoint) : Bool :=
  classes.isS next.cp

def lastLine (classes : Classes) : List CodePoint → Nat
  | [] => 0
  | a :: us => if classes.isS a.cp then (if 0 < lastLine classes us then lastLine classes us + 1 else if isNl a.cp then 1 else 0) else 0

theorem last_line_eq (us : List CodePoint) :
    lastLine classes us = ((((cpsOf us).takeWhile classes.isS).reverse).dropWhile fun c => !isNl c).length := by
  induction us with
  | nil => rfl
  | cons a us ih =>
    rw [lastLine, cpsOf, List.map_cons, List.takeWhile_cons, ← cpsOf]
    by_cases space : classes.isS a.cp = true
    · rw [if_pos space, if_pos space, List.reverse_cons, List.dropWhile_append, ih]
      by_cases none_ : (((cpsOf us).takeWhile classes.isS).reverse.dropWhile fun c => !isNl c) = []
      · rw [none_]
        cases line : isNl a.cp <;> simp [line]
      · have some_ := List.length_pos_iff.mpr none_
        rw [if_pos some_, if_neg (by simpa using none_), List.length_append, List.length_singleton]
    · rw [if_neg space, if_neg space]
      rfl

theorem line_ends_first (lines : ∀ c, isNl c = true → classes.isS c = true) (us : List CodePoint) :
    (lineEnds classes).first us = if 0 < lastLine classes us then some (us.drop (lastLine classes us)) else none := by
  rw [lineEnds, first_seq, oneOf, oneOf, star_one_ends]
  induction us with
  | nil => rfl
  | cons a us ih =>
    rw [runEnds, lastLine]
    by_cases space : classes.isS a.cp = true
    · rw [if_pos space, if_pos space, List.findSome?_append, ih, List.findSome?_singleton, first_plus_cons]
      by_cases later : 0 < lastLine classes us
      · rw [if_pos later, if_pos later, if_pos (Nat.succ_pos _), List.drop_succ_cons]
        rfl
      · rw [if_neg later, if_neg later, Option.none_or]
        by_cases line : isNl a.cp = true
        · rw [if_pos line, if_pos line, if_pos Nat.one_pos, List.drop_succ_cons, List.drop_zero]
          cases us with
          | nil => rfl
          | cons b us =>
            have other : ¬isNl b.cp = true := fun line' => by
              rw [lastLine, if_pos (lines _ line'), if_pos line'] at later
              split_ifs at later <;> omega
            rw [List.dropWhile_cons, if_neg other]
        · rw [if_neg line, if_neg line, if_neg (Nat.lt_irrefl 0)]
    · have other : ¬isNl a.cp = true := fun line => space (lines _ line)
      rw [if_neg space, if_neg space, List.findSome?_singleton, first_plus_cons, if_neg other, if_neg (Nat.lt_irrefl 0)]

def allButLast (classes : Classes) (us : List CodePoint) : Option (List CodePoint) :=
  if us.dropWhile (isSpaceAt classes) = [] then some []
  else if us.takeWhile (isSpaceAt classes) = [] then none
  else some (us.drop ((us.takeWhile (isSpaceAt classes)).length - 1))

theorem inner_spaces_run (us : List CodePoint) :
    (runEnds (isSpaceAt classes) us).findSome? (notAhead (oneOf fun c => !classes.isS c)).first = allButLast classes us := by
  induction us with
  | nil => rfl
  | cons a us ih =>
    rw [runEnds, allButLast, List.dropWhile_cons, List.takeWhile_cons]
    by_cases space : isSpaceAt classes a = true
    · have white : classes.isS a.cp = true := space
      rw [if_pos space, if_pos space, if_pos space, List.findSome?_append, ih, allButLast, List.findSome?_singleton,
        first_not_ahead, oneOf, first_one_cons, white]
      by_cases ends : us.dropWhile (isSpaceAt classes) = []
      · rw [if_pos ends, if_pos ends]
        rfl
      · rw [if_neg ends, if_neg ends]
        cases shape : us.takeWhile (isSpaceAt classes) with
        | nil => simp
        | cons b rest => simp
    · have other : classes.isS a.cp = false := by simpa [isSpaceAt] using space
      rw [if_neg space, if_neg space, if_neg space, List.findSome?_singleton, first_not_ahead, oneOf, first_one_cons, other]
      simp

theorem inner_spaces_first (a : CodePoint) (us : List CodePoint) :
    (innerSpaces classes).first (a :: us) = if classes.isS a.cp then allButLast classes us else none := by
  have run := @inner_spaces_run classes us
  rw [innerSpaces, first_seq, oneOf, oneOf, plus_one_ends]
  split_ifs
  · exact run
  · rfl

theorem any_spaces_first (a : CodePoint) (us : List CodePoint) :
    (anySpaces classes).first (a :: us) = if classes.isS a.cp then some (us.dropWhile (isSpaceAt classes)) else none := by
  rw [anySpaces, oneOf, first_plus_cons]
  rfl

theorem spaces_scan (lines : ∀ c, isNl c = true → classes.isS c = true) :
    Scans (alt (lineEnds classes) (alt (innerSpaces classes) (anySpaces classes))) (spaces classes) := by
  intro us
  rw [first_alt, first_alt, line_ends_first lines, spaces, ← last_line_eq]
  cases us with
  | nil => rfl
  | cons a us =>
    rw [inner_spaces_first, any_spaces_first]
    have count : ((cpsOf us).takeWhile classes.isS).length = (us.takeWhile (isSpaceAt classes)).length := run_length _ us
    have rest := drop_run (isSpaceAt classes) us
    have split : (us.takeWhile (isSpaceAt classes)).length + (us.dropWhile (isSpaceAt classes)).length = us.length := by
      rw [← List.length_append, List.takeWhile_append_dropWhile]
    by_cases space : classes.isS a.cp = true
    · rw [if_pos space, if_pos space]
      simp only [cpsOf, List.map_cons, List.takeWhile_cons, space, if_true, List.cons_ne_nil, if_false, List.length_cons,
        List.length_map]
      rw [← cpsOf, count]
      by_cases line : 0 < lastLine classes (a :: us)
      · rw [if_pos line, if_pos line]
        rfl
      · rw [if_neg line, if_neg line, Option.none_or, allButLast]
        by_cases ends : us.dropWhile (isSpaceAt classes) = []
        · rw [ends, List.length_nil] at split
          rw [if_pos ends, if_neg (by omega), Option.map_some, List.drop_succ_cons, rest, ends]
          rfl
        · have some_ := List.length_pos_iff.mpr ends
          have inside : (us.takeWhile (isSpaceAt classes)).length + 1 < us.length + 1 := by omega
          rw [if_neg ends, if_pos inside]
          cases shape : us.takeWhile (isSpaceAt classes) with
          | nil =>
            rw [shape, List.length_nil, List.drop_zero] at rest
            rw [if_pos rfl, Option.none_or, ← rest]
            rfl
          | cons b run =>
            rw [if_neg (List.cons_ne_nil _ _), Nat.add_sub_cancel, List.length_cons, Nat.max_eq_right (by omega)]
            rfl
    · have none_ : lastLine classes (a :: us) = 0 := by rw [lastLine, if_neg space]
      rw [if_neg space, if_neg space, none_]
      simp only [cpsOf, List.map_cons, List.takeWhile_cons, space]
      rfl

end Spaces

def shippedCut (classes : Classes) (cps : List Nat) : Option Nat :=
  (contraction cps).or ((letters classes cps).or (((numbers classes cps).map fun _ => 1).or
    ((others classes cps).or (spaces classes cps))))

theorem split_scan (lines : ∀ c, isNl c = true → classes.isS c = true) : Scans (splitPattern classes) (shippedCut classes) :=
  scans_alt contractions_scan (scans_alt words_scan (scans_alt number_scan (scans_alt marks_scan (spaces_scan lines))))

-- The code points of a cut, none of them a number.
def NoNumber (classes : Classes) (cps : List Nat) (k : Nat) : Prop :=
  ∀ c ∈ cps.take k, classes.isN c = false

section Taken

variable {cps : List Nat} {k : Nat}

theorem take_run {p : Nat → Bool} (inside : k ≤ (cps.takeWhile p).length) : ∀ c ∈ cps.take k, p c = true := by
  intro c among
  have whole : cps.take k = (cps.takeWhile p).take k := by
    conv_lhs => rw [← List.takeWhile_append_dropWhile (p := p) (l := cps)]
    exact List.take_append_of_le_length inside
  rw [whole] at among
  exact List.mem_takeWhile_imp (List.mem_of_mem_take among)

theorem contraction_plain (cut : contraction cps = some k) : ∀ c ∈ cps.take k, c = 0x27 ∨ 0x41 ≤ c ∧ c ≤ 0x7a := by
  have letter {d : Nat} (lower : 0x61 ≤ low d ∧ low d ≤ 0x7a) : d = 0x27 ∨ 0x41 ≤ d ∧ d ≤ 0x7a := by
    unfold low at lower
    split_ifs at lower <;> omega
  unfold contraction at cut
  split at cut
  · next d rest =>
      simp only at cut
      split_ifs at cut with long short
      · cases cut
        cases rest with
        | nil => cases long
        | cons d2 rest =>
          simp only [Bool.or_eq_true, Bool.and_eq_true, beq_iff_eq] at long
          intro c inside
          simp only [List.take_succ_cons, List.take_zero, List.mem_cons, List.not_mem_nil, or_false] at inside
          rcases inside with rfl | rfl | rfl
          · exact .inl rfl
          · exact letter (by omega)
          · exact letter (by omega)
      · cases cut
        intro c inside
        simp only [List.take_succ_cons, List.take_zero, List.mem_cons, List.not_mem_nil, or_false] at inside
        rcases inside with rfl | rfl
        · exact .inl rfl
        · exact letter (by omega)
  · cases cut

theorem contraction_no_number (apart : Apart classes) (cut : contraction cps = some k) : NoNumber classes cps k := by
  intro c inside
  have plain := contraction_plain cut c inside
  cases digit : classes.isN c with
  | false => rfl
  | true =>
    have range := apart.digits c (by omega) digit
    omega

theorem letters_no_number (apart : Apart classes) (cut : letters classes cps = some k) : NoNumber classes cps k := by
  unfold letters at cut
  split at cut
  · cases cut
  · next c rest =>
      split_ifs at cut with other letter
      · cases rest with
        | nil => cases cut
        | cons d rest =>
          simp only at cut
          split_ifs at cut
          cases cut
          rw [Nat.add_comm]
          intro x inside
          rw [List.take_succ_cons] at inside
          rcases List.mem_cons.mp inside with rfl | inside
          · simp only [Bool.and_eq_true, Bool.not_eq_true'] at other
            exact other.2
          · exact apart.letters x (take_run (Nat.le_refl _) x inside)
      · cases cut
        exact fun x inside => apart.letters x (take_run (Nat.le_refl _) x inside)

theorem other_no_number (other : isOther classes c = true) : classes.isN c = false := by
  simp only [isOther, Bool.and_eq_true, Bool.not_eq_true'] at other
  exact other.2

theorem run_no_number (apart : Apart classes) (cps : List Nat) : NoNumber classes cps (others.run classes cps) := by
  intro c inside
  rw [others.run, List.take_add, drop_run] at inside
  rcases List.mem_append.mp inside with inside | inside
  · exact other_no_number (take_run (Nat.le_refl _) c inside)
  · exact apart.spaces c (apart.lines c (take_run (Nat.le_refl _) c inside))

theorem others_no_number (apart : Apart classes) (cut : others classes cps = some k) : NoNumber classes cps k := by
  unfold others at cut
  split at cut
  · next d rest =>
      split_ifs at cut
      · cases cut
        rw [Nat.add_comm]
        intro c inside
        rw [List.take_succ_cons] at inside
        rcases List.mem_cons.mp inside with rfl | inside
        · cases digit : classes.isN 0x20 with
          | false => rfl
          | true =>
            have range := apart.digits 0x20 (by decide) digit
            omega
        · exact run_no_number apart _ c inside
      · cases cut
        exact run_no_number apart _
  · split_ifs at cut
    cases cut
    exact run_no_number apart _
  · cases cut

theorem spaces_no_number (apart : Apart classes) (cut : spaces classes cps = some k) : NoNumber classes cps k := by
  have within : k ≤ (cps.takeWhile classes.isS).length := by
    unfold spaces at cut
    simp only at cut
    split_ifs at cut with none_ lines before
    · cases cut
      have shorter := (List.dropWhile_suffix (fun c => !isNl c) (l := (cps.takeWhile classes.isS).reverse)).length_le
      rwa [List.length_reverse] at shorter
    · cases cut
      have some_ := List.length_pos_of_ne_nil none_
      omega
    · cases cut
      exact Nat.le_refl _
  exact fun c inside => apart.spaces c (take_run within c inside)

theorem last_cut {rest : List Nat} (letter : letters classes (c :: rest) = none) (digit : numbers classes (c :: rest) = none)
    (other : others classes (c :: rest) = none) : ∃ k, spaces classes (c :: rest) = some k := by
  by_cases space : classes.isS c = true
  · unfold spaces
    simp only
    split_ifs with none_
    · rw [List.takeWhile_cons, if_pos space] at none_
      cases none_
    · exact ⟨_, rfl⟩
    · exact ⟨_, rfl⟩
    · exact ⟨_, rfl⟩
  · exfalso
    have noDigit : classes.isN c = false := by
      unfold numbers at digit
      simpa using digit
    have noLetter : classes.isL c = false := by
      cases known : classes.isL c with
      | false => rfl
      | true => simp [letters, known] at letter
    have mark : isOther classes c = true := by simp [isOther, noDigit, noLetter, space]
    unfold others at other
    split at other
    · next d more same =>
        obtain ⟨rfl, rfl⟩ := List.cons.inj same
        simp only [mark, if_true] at other
        split_ifs at other
    · next same =>
        obtain ⟨rfl, rfl⟩ := List.cons.inj same
        rw [if_pos mark] at other
        cases other
    · next same => cases same

end Taken

inductive CutCase (classes : Classes) (c : Nat) (rest : List Nat) : Prop
  | plain (k : Nat) (scanner : nextCut classes (c :: rest) = k) (pattern : shippedCut classes (c :: rest) = some k)
      (none_ : NoNumber classes (c :: rest) k)
  | single (digit : classes.isN c = true) (scanner : nextCut classes (c :: rest) = 1)
      (pattern : shippedCut classes (c :: rest) = some 1) (last : ∀ d ∈ rest.head?, classes.isN d = false)
  | several (digit : classes.isN c = true) (scanner : 2 ≤ nextCut classes (c :: rest))
      (pattern : shippedCut classes (c :: rest) = some 1) (next : ∃ d ∈ rest.head?, classes.isN d = true)

theorem numbers_cut {rest : List Nat} {k : Nat} (cut : numbers classes (c :: rest) = some k) :
    classes.isN c = true ∧ ((k = 1 ∧ ∀ d ∈ rest.head?, classes.isN d = false) ∨
      2 ≤ k ∧ ∃ d ∈ rest.head?, classes.isN d = true) := by
  unfold numbers at cut
  simp only at cut
  split_ifs at cut with digit
  cases cut
  refine ⟨digit, ?_⟩
  rw [List.take_succ_cons, List.takeWhile_cons, if_pos digit, List.length_cons]
  cases rest with
  | nil => exact .inl ⟨rfl, nofun⟩
  | cons d rest =>
    rw [List.take_succ_cons, List.takeWhile_cons]
    cases second : classes.isN d with
    | true =>
      rw [if_pos rfl, List.length_cons]
      exact .inr ⟨by omega, d, rfl, second⟩
    | false =>
      refine .inl ⟨rfl, fun x front => ?_⟩
      cases front
      exact second

theorem cut_cases (apart : Apart classes) (c : Nat) (rest : List Nat) : CutCase classes c rest := by
  cases first : contraction (c :: rest) with
  | some k =>
    refine .plain k ?_ ?_ (contraction_no_number apart first)
    · simp only [nextCut, first, Option.some_or, Option.getD_some]
    · simp only [shippedCut, first, Option.some_or]
  | none =>
    cases second : letters classes (c :: rest) with
    | some k =>
      refine .plain k ?_ ?_ (letters_no_number apart second)
      · simp only [nextCut, first, second, Option.none_or, Option.some_or, Option.getD_some]
      · simp only [shippedCut, first, second, Option.none_or, Option.some_or]
    | none =>
      cases third : numbers classes (c :: rest) with
      | some k =>
        have scanner : nextCut classes (c :: rest) = k := by
          simp only [nextCut, first, second, third, Option.none_or, Option.some_or, Option.getD_some]
        have pattern : shippedCut classes (c :: rest) = some 1 := by
          simp only [shippedCut, first, second, third, Option.none_or, Option.map_some, Option.some_or]
        obtain ⟨digit, ⟨rfl, last⟩ | ⟨more, next⟩⟩ := numbers_cut third
        · exact .single digit scanner pattern last
        · exact .several digit (scanner ▸ more) pattern next
      | none =>
        cases fourth : others classes (c :: rest) with
        | some k =>
          refine .plain k ?_ ?_ (others_no_number apart fourth)
          · simp only [nextCut, first, second, third, fourth, Option.none_or, Option.some_or, Option.getD_some]
          · simp only [shippedCut, first, second, third, fourth, Option.none_or, Option.map_none, Option.some_or]
        | none =>
          obtain ⟨k, fifth⟩ := last_cut second third fourth
          refine .plain k ?_ ?_ (spaces_no_number apart fifth)
          · simp only [nextCut, first, second, third, fourth, fifth, Option.none_or, Option.getD_some]
          · simp only [shippedCut, first, second, third, fourth, fifth, Option.none_or, Option.map_none]

def LoneNumbers (classes : Classes) (us : List CodePoint) : Prop :=
  us.IsChain fun a b => ¬(classes.isN a.cp = true ∧ classes.isN b.cp = true)

theorem lone_cons {us : List CodePoint} (apart_ : classes.isN a.cp = false ∨ ∀ b ∈ us.head?, classes.isN b.cp = false) :
    LoneNumbers classes (a :: us) ↔ LoneNumbers classes us := by
  cases us with
  | nil => exact iff_of_true (.singleton a) .nil
  | cons b us =>
    refine List.isChain_cons_cons.trans ⟨And.right, fun lone => ⟨?_, lone⟩⟩
    rintro ⟨left, right⟩
    rcases apart_ with none_ | none_
    · cases left.symm.trans none_
    · cases right.symm.trans (none_ b rfl)

theorem lone_drop {us : List CodePoint} {k : Nat} (none_ : NoNumber classes (cpsOf us) k) :
    LoneNumbers classes us ↔ LoneNumbers classes (us.drop k) := by
  induction k generalizing us with
  | zero => rfl
  | succ k ih =>
    cases us with
    | nil => rfl
    | cons a us =>
      rw [NoNumber, cpsOf, List.map_cons, List.take_succ_cons, List.forall_mem_cons] at none_
      rw [List.drop_succ_cons, lone_cons (.inl none_.1)]
      exact ih none_.2

theorem successive_cut (lines : ∀ c, isNl c = true → classes.isS c = true) {us : List CodePoint} {k rounds : Nat}
    (cut : shippedCut classes (cpsOf (a :: us)) = some k) (some_ : 0 < k) (inside : k ≤ (a :: us).length) :
    (splitPattern classes).successive (rounds + 1) (a :: us) =
      (a :: us).take k :: (splitPattern classes).successive rounds ((a :: us).drop k) := by
  have less : ((a :: us).drop k).length < (a :: us).length := by
    rw [List.length_drop]
    omega
  have width : (a :: us).length - ((a :: us).drop k).length = k := by
    rw [List.length_drop]
    omega
  rw [successive, split_scan lines, cut]
  simp only [Option.map_some]
  rw [if_pos less, width]

theorem cut_units_step (rounds : Nat) (a : CodePoint) (us : List CodePoint) :
    cutUnits classes (rounds + 1) (a :: us) =
      ((a :: us).take (nextCut classes (cpsOf (a :: us)))).flatMap CodePoint.bytes ::
        cutUnits classes rounds ((a :: us).drop (nextCut classes (cpsOf (a :: us)))) := rfl

theorem split_run (apart : Apart classes) (rounds : Nat) (us : List CodePoint) (short : us.length ≤ rounds)
    (some_ : ∀ next ∈ us, next.bytes ≠ []) :
    cutUnits classes rounds us = ((splitPattern classes).successive rounds us).map (List.flatMap CodePoint.bytes) ↔
      LoneNumbers classes us := by
  induction rounds generalizing us with
  | zero =>
    rw [List.length_eq_zero_iff.mp (Nat.le_zero.mp short)]
    exact iff_of_true rfl .nil
  | succ rounds ih =>
    cases us with
    | nil => exact iff_of_true rfl .nil
    | cons a us =>
      obtain ⟨positive, inside⟩ := @next_cut_bounds classes (cpsOf (a :: us)) (List.cons_ne_nil _ _)
      rw [cpsOf, List.length_map] at inside
      have same {k : Nat} (scanner : nextCut classes (cpsOf (a :: us)) = k) (pattern : shippedCut classes (cpsOf (a :: us)) = some k)
          (lone : LoneNumbers classes (a :: us) ↔ LoneNumbers classes ((a :: us).drop k)) :
          cutUnits classes (rounds + 1) (a :: us) =
            ((splitPattern classes).successive (rounds + 1) (a :: us)).map (List.flatMap CodePoint.bytes) ↔
              LoneNumbers classes (a :: us) := by
        subst scanner
        have later := ih ((a :: us).drop (nextCut classes (cpsOf (a :: us))))
          (by rw [List.length_drop, List.length_cons] at *; omega) fun next among => some_ next (List.mem_of_mem_drop among)
        rw [successive_cut apart.lines pattern positive inside, cut_units_step, List.map_cons, List.cons.injEq, lone, ← later]
        exact and_iff_right rfl
      cases cut_cases apart a.cp (cpsOf us) with
      | plain k scanner pattern none_ => exact same scanner pattern (lone_drop none_)
      | single digit scanner pattern last =>
        refine same scanner pattern (lone_cons (.inr fun b front => ?_))
        exact last b.cp (by rw [cpsOf, List.head?_map, front]; rfl)
      | several digit scanner pattern next =>
        obtain ⟨d, front, second⟩ := next
        cases us with
        | nil => cases front
        | cons b us =>
          cases front
          refine iff_of_false (fun equal => ?_) fun lone => (List.isChain_cons_cons.mp lone).1 ⟨digit, second⟩
          rw [successive_cut apart.lines pattern Nat.one_pos (by simp), cut_units_step, List.map_cons, List.cons.injEq] at equal
          have more : 2 ≤ nextCut classes (cpsOf (a :: b :: us)) := scanner
          obtain ⟨k, shape⟩ : ∃ k, nextCut classes (cpsOf (a :: b :: us)) = k + 2 :=
            ⟨_, (Nat.sub_add_cancel more).symm⟩
          have head := congrArg List.length equal.1
          have long := List.length_pos_iff.mpr (some_ b (by simp))
          rw [shape] at head
          simp only [List.take_succ_cons, List.take_zero, List.flatMap_cons, List.flatMap_nil, List.length_append,
            List.length_nil] at head
          omega

-- The pieces are the matches of the shipped pattern exactly where no two numbers follow each other.
theorem pretok_split (chunk : Bytes) :
    pretokPieces unicode chunk = ((splitPattern unicode).found (units chunk)).map (List.flatMap CodePoint.bytes) ↔
      LoneNumbers unicode (units chunk) :=
  split_run unicode_apart _ _ (Nat.le_refl _) (scan_some _ _)

-- Three numbers at most make one piece of the scanner, and each number one of the pattern.
theorem twelve_split : ¬∀ chunk : Bytes,
    pretokPieces unicode chunk = ((splitPattern unicode).found (units chunk)).map (List.flatMap CodePoint.bytes) := by
  intro claimed
  have scanner : pretokPieces unicode (utf8 "12") = [utf8 "12"] := by decide +kernel
  have pattern : ((splitPattern unicode).found (units (utf8 "12"))).map (List.flatMap CodePoint.bytes) = [utf8 "1", utf8 "2"] := by
    decide +kernel
  have count := congrArg List.length (scanner.symm.trans ((claimed (utf8 "12")).trans pattern))
  cases count

end SamosaChat.Tokenizer
