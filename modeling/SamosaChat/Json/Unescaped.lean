import SamosaChat.Json.RoundTrip
import SamosaChat.Lib.Find
import SamosaChat.Lib.FixedText

set_option autoImplicit false

namespace SamosaChat.Json

open Utf8 Text Decimal FloatText Binary64

def Plain (text : Bytes) : Prop :=
  ∀ c ∈ text, c ≠ 0x22 ∧ c ≠ 0x5c

theorem put_code_length (cp : Nat) : (jPutCode cp).length ≤ 4 := by
  unfold jPutCode
  split_ifs <;> simp

theorem put_code_first {cp : Nat} (four_ : (jPutCode cp).length = 4) : (jPutCode cp).head? ≠ some 0x5c := by
  unfold jPutCode at four_ ⊢
  split_ifs at four_ ⊢
  · simp at four_
  · simp at four_
  · simp at four_
  · intro first
    rw [List.head?_cons] at first
    have value := congrArg UInt8.toNat (Option.some.inj first)
    rw [UInt8.toNat_ofNat', Nat.or_mod_two_pow] at value
    have high : 0xf0 ≤ 0xf0 % 2 ^ 8 ||| cp >>> 18 % 2 ^ 8 := Nat.left_le_or
    rw [value] at high
    exact absurd high (by decide)

variable {after bytes part rest s tail : Bytes} {b : UInt8} {fuel : Nat} {n : Int}

theorem advance_ok {k : Nat} {t : Bytes} (moved : advance k s = .ok t) : k ≤ s.length ∧ t = s.drop k := by
  unfold advance at moved
  split_ifs at moved with room
  cases moved
  exact ⟨room, rfl⟩

theorem low_half_some {cp lo : Nat} (low : lowHalf cp s = .ok (some lo)) : (isHigh cp && s.take 2 == [0x5c, 0x75]) = true := by
  unfold lowHalf at low
  split_ifs at low with follow
  · exact follow
  · cases low

theorem unicode_ok {t : Bytes} (read : unicodeEscape s = .ok (part, t)) :
    4 ≤ s.length ∧ ∃ cp, part = jPutCode cp ∧ (t = s.drop 4 ∨ followed s = true ∧ 10 ≤ s.length ∧ t = s.drop 10) := by
  by_cases whole : 4 ≤ s.length
  · refine ⟨whole, ?_⟩
    rw [unicode_read whole] at read
    cases low : lowHalf (four s) (s.drop 4) with
    | error stop =>
      rw [low] at read
      cases read
    | ok half =>
      rw [low] at read
      cases half with
      | none =>
        cases read
        exact ⟨_, rfl, .inl rfl⟩
      | some lo =>
        cases moved : advance 6 (s.drop 4) with
        | error stop =>
          simp only [Except.bind, moved] at read
          cases read
        | ok t' =>
          obtain ⟨room, rest⟩ := advance_ok moved
          rw [List.length_drop] at room
          rw [List.drop_drop] at rest
          simp only [Except.bind, Except.map, moved, Except.ok.injEq, Prod.mk.injEq] at read
          exact ⟨_, read.1.symm, .inr ⟨low_half_some low, by omega, read.2.symm.trans rest⟩⟩
  · rw [unicode_cut (by omega)] at read
    cases read

inductive Scanned (after : Bytes) : Bytes → Bytes → Bytes → Prop
  | plain {text : Bytes} (all : Plain text) : Scanned after text text after
  | short {text bytes rest : Bytes} (less : bytes.length < text.length) : Scanned after text bytes rest
  | quote {first before later rest : Bytes} {fuel : Nat} (less : before.length ≤ first.length)
      (scan : stringLoop fuel after = .ok (later, rest)) : Scanned after (first ++ [0x5c]) (before ++ 0x22 :: later) rest
  | code {first digits before later rest : Bytes} {cp fuel : Nat} (few : digits.length ≤ 3)
      (less : before.length ≤ first.length) (room : 3 ≤ digits.length + after.length)
      (scan : stringLoop fuel ((0x22 :: after).drop (4 - digits.length)) = .ok (later, rest)) :
      Scanned after (first ++ 0x5c :: 0x75 :: digits) (before ++ jPutCode cp ++ later) rest

theorem scanned_escape {text : Bytes} {escape : Bytes} (less : part.length < escape.length)
    (scanned : Scanned after text bytes rest) : Scanned after (escape ++ text) (part ++ bytes) rest := by
  cases scanned with
  | plain all => exact .short (by rw [List.length_append, List.length_append]; omega)
  | short less' => exact .short (by rw [List.length_append, List.length_append]; omega)
  | @quote first before later _ fuel less' scan =>
    rw [← List.append_assoc, ← List.append_assoc]
    exact .quote (by rw [List.length_append, List.length_append]; omega) scan
  | @code first digits before later _ cp fuel few less' room scan =>
    rw [← List.append_assoc, ← List.append_assoc, ← List.append_assoc]
    exact .code few (by rw [List.length_append, List.length_append]; omega) room scan

theorem scanned_cons {text : Bytes} {c : UInt8} (quote : c ≠ 0x22) (backslash : c ≠ 0x5c)
    (scanned : Scanned after text bytes rest) : Scanned after (c :: text) (c :: bytes) rest := by
  cases scanned with
  | plain all => exact .plain (List.forall_mem_cons.mpr ⟨⟨quote, backslash⟩, all⟩)
  | short less => exact .short (by rw [List.length_cons, List.length_cons]; omega)
  | @quote first before later _ fuel less scan =>
    have longer : (c :: before).length ≤ (c :: first).length := by simpa using less
    exact .quote longer scan
  | @code first digits before later _ cp fuel few less room scan =>
    have longer : (c :: before).length ≤ (c :: first).length := by simpa using less
    exact .code few longer room scan

theorem scanned_backslash {text : Bytes} {left later : Bytes} (clear : ∀ c ∈ after.take 4, c ≠ 0x5c)
    (shorter : ∀ (text' bytes rest : Bytes) (fuel : Nat), text'.length ≤ text.length →
      stringLoop fuel (text' ++ 0x22 :: after) = .ok (bytes, rest) → Scanned after text' bytes rest)
    (step : stringStep 0x5c (text ++ 0x22 :: after) = .ok (part, left)) (scan : stringLoop fuel left = .ok (later, rest)) :
    Scanned after (0x5c :: text) (part ++ later) rest := by
  cases text with
  | nil =>
    cases step
    have level : ([] : Bytes).length ≤ ([] : Bytes).length := Nat.le_refl _
    exact .quote level scan
  | cons e text =>
    by_cases code : e = 0x75
    · subst code
      rw [List.cons_append, string_step_code] at step
      obtain ⟨whole, cp, rfl, moved⟩ := unicode_ok step
      have four_ := put_code_length cp
      rw [List.length_append, List.length_cons] at whole
      rcases moved with rfl | ⟨follow, room, rfl⟩
      · by_cases inside : 4 ≤ text.length
        · rw [List.drop_append_of_le_length inside] at scan
          have scanned := shorter _ _ _ _ (by rw [List.length_drop, List.length_cons]; omega) scan
          have whole_ : (0x5c :: 0x75 :: text : Bytes) = (0x5c :: 0x75 :: text.take 4) ++ text.drop 4 := by simp
          rw [whole_]
          exact scanned_escape (by simp; omega) scanned
        · rw [List.drop_append, List.drop_of_length_le (by omega), List.nil_append] at scan
          have level : ([] : Bytes).length ≤ ([] : Bytes).length := Nat.le_refl _
          exact .code (by omega) level (by omega) scan
      · obtain ⟨t, second⟩ := followed_shape follow
        by_cases inside : 10 ≤ text.length
        · rw [List.drop_append_of_le_length inside] at scan
          have scanned := shorter _ _ _ _ (by rw [List.length_drop, List.length_cons]; omega) scan
          have whole_ : (0x5c :: 0x75 :: text : Bytes) = (0x5c :: 0x75 :: text.take 10) ++ text.drop 10 := by simp
          rw [whole_]
          exact scanned_escape (by simp; omega) scanned
        · rw [List.drop_append, List.drop_of_length_le (by omega), List.nil_append] at scan
          by_cases both : 6 ≤ text.length
          · rw [List.drop_append_of_le_length (by omega)] at second
            have whole_ : (0x5c :: 0x75 :: text : Bytes) = (0x5c :: 0x75 :: text.take 4) ++ 0x5c :: 0x75 :: text.drop 6 := by
              have later : text.drop 4 = 0x5c :: 0x75 :: text.drop 6 := by
                have size : (text.drop 4).length = text.length - 4 := List.length_drop
                rw [show text.drop 6 = (text.drop 4).drop 2 by rw [List.drop_drop]]
                match shape : text.drop 4, second with
                | [], _ => simp [shape] at size; omega
                | [a], _ => simp [shape] at size; omega
                | a :: b :: u, second =>
                  simp only [List.cons_append, List.cons.injEq] at second
                  rw [second.1, second.2.1]
                  rfl
              rw [← later]
              simp
            have size : (text.drop 6).length = text.length - 6 := List.length_drop
            rw [whole_]
            have less : ([] : Bytes).length ≤ (0x5c :: 0x75 :: text.take 4 : Bytes).length := Nat.zero_le _
            have room' : 3 ≤ (text.drop 6).length + after.length := by
              rw [List.length_append, List.length_cons] at room
              omega
            rw [show 10 - text.length = 4 - (text.drop 6).length by omega] at scan
            exact .code (by omega) less room' scan
          · -- The second escape would begin at the quote or in the clear bytes behind it.
            exfalso
            by_cases small : text.length < 4
            · obtain ⟨k, less⟩ : ∃ k, 4 - text.length = k + 1 := ⟨3 - text.length, by omega⟩
              rw [List.drop_append, List.drop_of_length_le (by omega), List.nil_append, less, List.drop_succ_cons] at second
              have here : after[k]? = some 0x5c := by rw [← List.head?_drop, second]; rfl
              have near : (0x5c : UInt8) ∈ after.take 4 :=
                List.mem_of_getElem? (i := k) (by rw [List.getElem?_take_of_lt (by omega)]; exact here)
              exact clear _ near rfl
            · rw [List.drop_append_of_le_length (by omega)] at second
              have size : (text.drop 4).length = text.length - 4 := List.length_drop
              match shape : text.drop 4, second with
              | [], second => exact absurd (List.cons.inj second).1 (by decide)
              | [a], second => exact absurd (List.cons.inj (List.cons.inj second).2).1 (by decide)
              | a :: b :: u, _ => simp [shape] at size; omega
    · have other : stringStep 0x5c (e :: text ++ 0x22 :: after) = .ok ([unescape e], text ++ 0x22 :: after) := by
        rw [List.cons_append, stringStep, if_pos rfl]
        exact if_neg code
      rw [other] at step
      cases step
      have scanned := shorter text later rest fuel (by rw [List.length_cons]; omega) scan
      have less : [unescape e].length < [0x5c, e].length := by simp
      exact scanned_escape less scanned

theorem scan_string (clear : ∀ c ∈ after.take 4, c ≠ 0x5c) (size : Nat) :
    ∀ (text bytes rest : Bytes) (fuel : Nat), text.length ≤ size →
      stringLoop fuel (text ++ 0x22 :: after) = .ok (bytes, rest) → Scanned after text bytes rest := by
  induction size with
  | zero =>
    intro text bytes rest fuel most scan
    cases List.length_eq_zero_iff.mp (Nat.le_zero.mp most)
    cases fuel with
    | zero => cases scan
    | succ fuel =>
      rw [List.nil_append, stringLoop, if_pos rfl] at scan
      cases scan
      exact .plain fun c inside => by cases inside
  | succ size ih =>
    intro text bytes rest fuel most scan
    cases fuel with
    | zero => cases scan
    | succ fuel =>
      cases text with
      | nil =>
        rw [List.nil_append, stringLoop, if_pos rfl] at scan
        cases scan
        exact .plain fun c inside => by cases inside
      | cons c text =>
        rw [List.length_cons] at most
        rw [List.cons_append] at scan
        by_cases quote : c = 0x22
        · rw [stringLoop, if_pos quote] at scan
          cases scan
          exact .short (Nat.succ_pos _)
        · cases step : stringStep c (text ++ 0x22 :: after) with
          | error stop =>
            rw [stringLoop, if_neg quote, step] at scan
            cases scan
          | ok pair =>
            obtain ⟨part, left⟩ := pair
            rw [string_loop_step quote step] at scan
            cases later : stringLoop fuel left with
            | error stop =>
              rw [later] at scan
              cases scan
            | ok out =>
              obtain ⟨bytes', rest'⟩ := out
              rw [later] at scan
              cases scan
              by_cases backslash : c = 0x5c
              · subst backslash
                exact scanned_backslash clear (fun text bytes rest fuel less => ih text bytes rest fuel (by omega)) step later
              · unfold stringStep at step
                rw [if_neg backslash] at step
                cases step
                exact scanned_cons quote backslash (ih text bytes' _ fuel (by omega) later)

theorem cstr_length (bytes : Bytes) : (cstr bytes).length ≤ bytes.length :=
  (cstr_start bytes).length_le

theorem cstr_inside (inside : (0 : UInt8) ∈ bytes) (more : Bytes) : (cstr (bytes ++ more)).length < bytes.length := by
  induction bytes with
  | nil => cases inside
  | cons c bytes ih =>
    unfold cstr at ih ⊢
    rw [List.cons_append, List.takeWhile_cons]
    split_ifs with other
    · rw [List.length_cons, List.length_cons]
      rcases List.mem_cons.mp inside with same | later
      · simp [← same] at other
      · exact Nat.succ_lt_succ (ih later)
    · exact Nat.succ_pos _

-- The names of the members, as they are written in the source.
structure Name (key : Bytes) : Prop where
  plain : Plain key
  text : (0 : UInt8) ∉ key
  some_ : key ≠ []
  first : ∀ c ∈ key.head?, isSpace c = false ∧ c ≠ 0x2c

theorem delimiter_other {c : UInt8} (space : isSpace c = false) (comma : c ≠ 0x2c) : (delimiter 0x7d (c :: rest)).1 = false := by
  rw [delimiter, ws_cons space]
  simp only [List.head?_cons, Option.some.injEq, if_neg comma]
  split_ifs <;> rfl

theorem scan_plain_quote {plain rest' : Bytes} (all : Plain plain)
    (scan : stringLoop fuel (plain ++ 0x22 :: rest) = .ok (bytes, rest')) : bytes = plain ∧ rest' = rest := by
  induction plain generalizing fuel bytes with
  | nil =>
    cases fuel with
    | zero => cases scan
    | succ fuel =>
      rw [List.nil_append, stringLoop, if_pos rfl] at scan
      cases scan
      exact ⟨rfl, rfl⟩
  | cons c plain ih =>
    cases fuel with
    | zero => cases scan
    | succ fuel =>
      obtain ⟨quote, backslash⟩ := all c List.mem_cons_self
      have step : stringStep c (plain ++ 0x22 :: rest) = .ok ([c], plain ++ 0x22 :: rest) := if_neg backslash
      rw [List.cons_append, string_loop_step quote step] at scan
      cases later : stringLoop fuel (plain ++ 0x22 :: rest) with
      | error stop =>
        rw [later] at scan
        cases scan
      | ok out =>
        obtain ⟨bytes', left⟩ := out
        rw [later] at scan
        cases scan
        obtain ⟨same, rest_⟩ := ih (fun d inside => all d (List.mem_cons_of_mem _ inside)) later
        exact ⟨by rw [same]; rfl, rest_⟩

theorem plain_before_member {text : Bytes} {key : Bytes} (name : Name key)
    (scan : stringLoop fuel (text ++ 0x22 :: 0x2c :: 0x22 :: (key ++ 0x22 :: 0x3a :: tail)) = .ok (bytes, rest))
    (same : cstr bytes = text) (more : (delimiter 0x7d rest).1 = true) :
    Plain text ∧ rest = 0x2c :: 0x22 :: (key ++ 0x22 :: 0x3a :: tail) := by
  obtain ⟨plain, noNul, some_, first⟩ := name
  obtain ⟨c, key, rfl⟩ := List.exists_cons_of_ne_nil some_
  obtain ⟨space, comma⟩ := first c rfl
  -- No string that ends behind the quote leaves a comma behind it.
  have colon_ : ∀ {rest : Bytes}, rest = 0x3a :: tail → (delimiter 0x7d rest).1 ≠ true := by
    rintro rest rfl
    rw [delimiter_other (by decide) (by decide)]
    decide
  have key_ : ∀ {rest : Bytes}, rest = c :: key ++ 0x22 :: 0x3a :: tail → (delimiter 0x7d rest).1 ≠ true := by
    rintro rest rfl
    rw [List.cons_append, delimiter_other space comma]
    decide
  have later : Plain key := fun d inside => plain d (List.mem_cons_of_mem _ inside)
  have clear : ∀ d ∈ (0x2c :: 0x22 :: (c :: key ++ 0x22 :: 0x3a :: tail)).take 4, d ≠ 0x5c := by
    intro d inside
    rw [List.take_succ_cons, List.take_succ_cons, List.cons_append, List.take_succ_cons] at inside
    simp only [List.mem_cons] at inside
    rcases inside with rfl | rfl | rfl | inside
    · decide
    · decide
    · exact (plain d List.mem_cons_self).2
    · cases key with
      | nil =>
        rw [List.nil_append, List.take_succ_cons, List.take_zero, List.mem_singleton] at inside
        rw [inside]
        decide
      | cons e key =>
        rw [List.cons_append, List.take_succ_cons, List.take_zero, List.mem_singleton] at inside
        rw [inside]
        exact (later e List.mem_cons_self).2
  have comma_scan : ∀ {fuel : Nat} {later rest : Bytes},
      stringLoop fuel (0x2c :: 0x22 :: (c :: key ++ 0x22 :: 0x3a :: tail)) = .ok (later, rest) →
        rest = c :: key ++ 0x22 :: 0x3a :: tail := fun scan =>
    have comma : Plain [0x2c] := by
      unfold Plain
      decide
    (scan_plain_quote comma scan).2
  cases scan_string clear _ _ _ _ _ (Nat.le_refl _) scan with
  | plain all => exact ⟨all, rfl⟩
  | short less =>
    have := cstr_length bytes
    rw [same] at this
    omega
  | quote less scan => exact absurd more (key_ (comma_scan scan))
  | @code first digits before later' _ cp fuel few less room scan =>
    rcases (by omega : digits.length = 3 ∨ digits.length = 2 ∨ digits.length = 1 ∨ digits.length = 0) with
      three | two | one_ | none_
    · rw [three] at scan
      exact absurd more (key_ (comma_scan scan))
    · rw [two] at scan
      have none_ : Plain [] := fun d inside => by cases inside
      exact absurd more (key_ (scan_plain_quote none_ scan).2)
    · rw [one_] at scan
      exact absurd more (colon_ (scan_plain_quote plain scan).2)
    · rw [none_] at scan
      exact absurd more (colon_ (scan_plain_quote later scan).2)

theorem plain_before_end {text : Bytes} (scan : stringLoop fuel (text ++ [0x22, 0x7d]) = .ok (bytes, rest)) (same : cstr bytes = text) :
    Plain text ∧ rest = [0x7d] := by
  have ends : ∀ {fuel : Nat} {later rest : Bytes}, stringLoop fuel [0x7d] = .ok (later, rest) → later = [0x7d] := by
    intro fuel later rest scan
    match fuel, scan with
    | 0, scan => cases scan
    | 1, scan => cases scan
    | fuel + 2, scan =>
      cases scan
      rfl
  cases scan_string (by decide) _ _ _ _ _ (Nat.le_refl _) scan with
  | plain all => exact ⟨all, rfl⟩
  | short less =>
    have := cstr_length bytes
    rw [same] at this
    omega
  | @quote first before later _ fuel less scan =>
    exfalso
    cases ends scan
    by_cases nul : (0 : UInt8) ∈ before
    · have cut := cstr_inside nul [0x22, 0x7d]
      rw [same, List.length_append, List.length_singleton] at cut
      omega
    · rw [cstr_self (by simp [nul])] at same
      have last := congrArg List.getLast? same
      simp at last
  | @code first digits before later _ cp fuel few less room scan =>
    exfalso
    rw [List.length_singleton] at room
    have most := put_code_length cp
    have tail : (0 : UInt8) ∉ later ∧ later.length + 2 = digits.length := by
      rcases (by omega : digits.length = 2 ∨ digits.length = 3) with two | three
      · rw [two] at scan
        match fuel, scan with
        | 0, scan => cases scan
        | fuel + 1, scan =>
          cases scan
          exact ⟨by simp, two.symm⟩
      · rw [three] at scan
        cases ends scan
        exact ⟨by decide, three.symm⟩
    by_cases nul : (0 : UInt8) ∈ before ++ jPutCode cp
    · have cut := cstr_inside nul later
      rw [same, List.length_append, List.length_append, List.length_cons, List.length_cons] at cut
      omega
    · rw [cstr_self (by rw [List.mem_append, not_or]; exact ⟨nul, tail.1⟩)] at same
      have size := congrArg List.length same
      simp only [List.length_append, List.length_cons] at size
      have four_ : (jPutCode cp).length = 4 := by omega
      rw [List.append_assoc] at same
      have back := (List.append_inj same (by omega)).2
      obtain ⟨c, rest', shape⟩ := List.exists_cons_of_ne_nil (List.ne_nil_of_length_pos (by omega : 0 < (jPutCode cp).length))
      rw [shape] at back
      exact put_code_first four_ (by rw [shape, List.head?_cons, (List.cons.inj back).1])

inductive Slot
  | raw (text : Bytes)
  | count (n : Int)
  | null

def Slot.text : Slot → Bytes
  | .raw text => 0x22 :: text ++ [0x22]
  | .count n => decimalInt n
  | .null => utf8 "null"

def Slot.Clean : Slot → Prop
  | .raw text => (0 : UInt8) ∉ text
  | _ => True

def Slot.Readable : Slot → Prop
  | .raw text => Plain text
  | .count n => Fits (n.natAbs * one)
  | .null => True

theorem raw_readable {text : Bytes} : (Slot.raw text).Readable ↔ Plain text :=
  Iff.rfl

theorem count_readable : (Slot.count n).Readable ↔ Fits (n.natAbs * one) :=
  Iff.rfl

def Holds : Slot → Jval → Prop
  | .raw text, value => value = .str text
  | .count n, value => ∃ magnitude, value = .num (.finite (decide (n < 0)) magnitude) ∧ magnitude.units = n.natAbs * one
  | .null, value => value = .null

def memberText (member : Bytes × Slot) : Bytes :=
  0x22 :: (member.1 ++ 0x22 :: 0x3a :: member.2.text)

def tailText : List (Bytes × Slot) → Bytes
  | [] => [0x7d]
  | member :: more => 0x2c :: (memberText member ++ tailText more)

def Turn (tail : Bytes) : Prop :=
  tail = [0x7d] ∨ ∃ key after, Name key ∧ tail = 0x2c :: 0x22 :: (key ++ 0x22 :: 0x3a :: after)

theorem turn_closed (turn : Turn tail) : Closed tail := by
  rcases turn with rfl | ⟨key, after, _, rfl⟩
  · exact closed_cons (by decide) []
  · exact closed_cons (by decide) _

theorem strtod_int (n : Int) (stop : FloatText.Stop rest) :
    strtod (decimalInt n ++ rest) = (ofRatio (decide (n < 0)) n.natAbs 1, rest) := by
  have all : ∀ c ∈ decimal n.natAbs, isDigit c = true := fun c inside => decimal_digits inside
  have read := mantissa_whole all fun c front => ⟨(stop c front).1, (stop c front).2.1⟩
  obtain ⟨c, digits, shape, first⟩ := decimal_head n.natAbs
  have scan (negative : Bool) : scanNumber negative (decimal n.natAbs ++ rest) = some (ofRatio negative n.natAbs 1, rest) := by
    have plain : scanNumber negative (decimal n.natAbs ++ rest) = scanDecimal negative (decimal n.natAbs ++ rest) := by
      rw [shape] at all ⊢
      apply scan_plain negative first
      exact head_not_mark (fun d inside => all d (List.mem_cons_of_mem _ inside)) fun d front => (stop d front).2.2.2
    rw [plain, scanDecimal, read]
    simp only
    rw [if_neg (by simp [decimal_ne_nil]), exponent_absent stop, digits_value_decimal]
    simp [ofScaled]
  rw [shape, List.cons_append] at scan
  unfold decimalInt
  by_cases below : n < 0
  · rw [if_pos below, shape]
    have signed := strtod_signed true first (scan true)
    rw [if_pos rfl] at signed
    rw [decide_eq_true below]
    exact signed
  · rw [if_neg below, shape]
    have unsigned := strtod_signed false first (scan false)
    rw [if_neg (by decide)] at unsigned
    rw [decide_eq_false below]
    exact unsigned

theorem int_head (n : Int) (rest : Bytes) : ∃ c t, decimalInt n ++ rest = c :: t ∧ (isDigit c = true ∨ c = 0x2d) := by
  unfold decimalInt
  split_ifs
  · exact ⟨0x2d, decimal n.natAbs ++ rest, rfl, .inr rfl⟩
  · obtain ⟨c, digits, shape, first⟩ := decimal_head n.natAbs
    exact ⟨c, digits ++ rest, by rw [shape]; rfl, .inl first⟩

theorem parse_int {fuel : Nat} (n : Int) {rest : Bytes} (closed : Closed rest) :
    jParseVal (fuel + 1) (decimalInt n ++ rest) = .ok (.num (ofRatio (decide (n < 0)) n.natAbs 1), rest) := by
  have read := strtod_int n (closed_stop closed)
  obtain ⟨c, t, shape, kind⟩ := int_head n rest
  rw [shape] at read ⊢
  exact parse_numeral kind read

theorem int_holds (fits : Fits (n.natAbs * one)) : Holds (.count n) (.num (ofRatio (decide (n < 0)) n.natAbs 1)) := by
  let magnitude : Magnitude := ⟨n.natAbs * one, fits⟩
  have same : n.natAbs * one = magnitude.units * 1 := by rw [Nat.mul_one]
  rw [of_ratio_exact _ Nat.one_pos same]
  exact ⟨_, rfl, rfl⟩

theorem int_fits {value : Jval} (holds : Holds (.count n) value) : Fits (n.natAbs * one) := by
  obtain ⟨magnitude, _, units⟩ := holds
  rw [← units]
  exact magnitude.fits

theorem parse_raw (text tail : Bytes) :
    jParseVal (fuel + 1) (0x22 :: text ++ [0x22] ++ tail) =
      (stringLoop ((text ++ 0x22 :: tail).length + 1) (text ++ 0x22 :: tail)).map fun (bytes, rest) =>
        (.str (cstr bytes), rest) := by
  have shape : (0x22 :: text ++ [0x22] ++ tail : Bytes) = 0x22 :: (text ++ 0x22 :: tail) := by simp
  rw [shape, parse_val_head _ (by decide), if_pos rfl]
  unfold jParseStrRaw advance
  rw [if_pos (by simp)]
  change ((stringLoop ((text ++ 0x22 :: tail).length + 1) (text ++ 0x22 :: tail)).bind fun out =>
    .ok (cstr out.1, out.2)).map _ = _
  cases stringLoop ((text ++ 0x22 :: tail).length + 1) (text ++ 0x22 :: tail) <;> rfl

theorem slot_read {slot : Slot} (clean : slot.Clean) (turn : Turn tail) (fuel : Nat) :
    (slot.Readable → ∃ value, jParseVal (fuel + 1) (slot.text ++ tail) = .ok (value, tail) ∧ Holds slot value) ∧
      ∀ value rest, jParseVal (fuel + 1) (slot.text ++ tail) = .ok (value, rest) → Holds slot value →
        (tail = [0x7d] ∨ (delimiter 0x7d rest).1 = true) → slot.Readable ∧ rest = tail := by
  cases slot with
  | null =>
    have read := @parse_null fuel tail
    rw [written] at read
    refine ⟨fun _ => ⟨_, read, rfl⟩, fun value rest again _ _ => ⟨trivial, ?_⟩⟩
    rw [Slot.text, read] at again
    cases again
    rfl
  | count n =>
    have read := @parse_int fuel n _ (turn_closed turn)
    refine ⟨fun fits => ⟨_, read, int_holds fits⟩, fun value rest again holds _ => ⟨int_fits holds, ?_⟩⟩
    rw [Slot.text, read] at again
    cases again
    rfl
  | raw text =>
    constructor
    · intro plain
      have loop := decodes_plain plain (decodes_quote tail)
      rw [List.append_nil] at loop
      refine ⟨.str text, ?_, rfl⟩
      rw [Slot.text, parse_raw, loop _ (Nat.lt_succ_self _)]
      exact congrArg (fun text => Except.ok (Jval.str text, tail)) (cstr_self clean)
    · intro value rest read holds more
      rw [Slot.text, parse_raw] at read
      cases scan : stringLoop ((text ++ 0x22 :: tail).length + 1) (text ++ 0x22 :: tail) with
      | error stop =>
        rw [scan] at read
        cases read
      | ok out =>
        obtain ⟨bytes, rest'⟩ := out
        rw [scan] at read
        obtain ⟨rfl, rfl⟩ := Prod.mk.inj (Except.ok.inj read)
        have same : cstr bytes = text := Jval.str.inj holds
        rcases turn with rfl | ⟨key, after, name, rfl⟩
        · exact plain_before_end scan same
        · rcases more with end_ | more
          · cases end_
          · exact plain_before_member name scan same more

theorem field_step {key : Bytes} (name : Name key) :
    jParseFields (fuel + 1) (0x22 :: (key ++ 0x22 :: 0x3a :: s)) =
      (jParseVal fuel s).bind fun out =>
        if (delimiter 0x7d out.2).1 = true then
          (jParseFields fuel (delimiter 0x7d out.2).2).map fun (fields, s) => ((key, out.1) :: fields, s)
        else .ok ([(key, out.1)], (delimiter 0x7d out.2).2) := by
  have loop := decodes_plain name.plain (decodes_quote (0x3a :: s))
  rw [List.append_nil] at loop
  have raw : jParseStrRaw (0x22 :: (key ++ 0x22 :: 0x3a :: s)) = .ok (key, 0x3a :: s) := by
    unfold jParseStrRaw advance
    rw [if_pos (by simp)]
    change ((stringLoop ((key ++ 0x22 :: 0x3a :: s).length + 1) (key ++ 0x22 :: 0x3a :: s)).bind fun out =>
      .ok (cstr out.1, out.2)) = _
    rw [loop _ (Nat.lt_succ_self _)]
    exact congrArg (fun text => Except.ok (text, 0x3a :: s)) (cstr_self name.text)
  rw [jParseFields, ws_cons (by decide), raw]
  change ((jParseVal fuel (colon (0x3a :: s))).bind _) = _
  rw [colon_cons]
  cases jParseVal fuel s <;> rfl

def FieldsHold (members : List (Bytes × Slot)) (fields : List (Bytes × Jval)) : Prop :=
  List.Forall₂ (fun member field => field.1 = member.1 ∧ Holds member.2 field.2) members fields

theorem tail_turn {more : List (Bytes × Slot)} (names : ∀ member ∈ more, Name member.1) : Turn (tailText more) := by
  cases more with
  | nil => exact .inl rfl
  | cons next more =>
    refine .inr ⟨next.1, next.2.text ++ tailText more, names next List.mem_cons_self, ?_⟩
    simp [tailText, memberText]

theorem member_tail (member : Bytes × Slot) (tail : Bytes) :
    memberText member ++ tail = 0x22 :: (member.1 ++ 0x22 :: 0x3a :: (member.2.text ++ tail)) := by
  simp [memberText]

-- By the members that are left: what stands behind a slot says whether another member follows.
theorem fields_readable (more : List (Bytes × Slot)) :
    ∀ (member : Bytes × Slot) (fuel : Nat), more.length + 2 ≤ fuel → (∀ other ∈ member :: more, Name other.1) →
      (∀ other ∈ member :: more, other.2.Clean) → ((∃ fields, FieldsHold (member :: more) fields ∧
          jParseFields fuel (memberText member ++ tailText more) = .ok (fields, [])) ↔
        ∀ other ∈ member :: more, other.2.Readable) := by
  induction more with
  | nil =>
    intro member fuel enough names clean
    obtain ⟨fuel, rfl⟩ : ∃ k, fuel = k + 2 := ⟨fuel - 2, by simp at enough; omega⟩
    have last : Turn (tailText []) := tail_turn (by simp)
    obtain ⟨forward, backward⟩ := slot_read (clean member List.mem_cons_self) last fuel
    rw [member_tail, field_step (names member List.mem_cons_self)]
    constructor
    · rintro ⟨fields, hold, parsed⟩
      obtain ⟨⟨name, value'⟩, fields, ⟨key, holds⟩, _, rfl⟩ := List.forall₂_cons_left_iff.mp hold
      cases read : jParseVal (fuel + 1) (member.2.text ++ tailText []) with
      | error stop =>
        rw [read] at parsed
        cases parsed
      | ok out =>
        obtain ⟨value, rest⟩ := out
        rw [read] at parsed
        simp only [Except.bind] at parsed
        have same : value = value' := by
          by_cases more : (delimiter 0x7d rest).1 = true
          · rw [if_pos more] at parsed
            cases parsed' : jParseFields (fuel + 1) (delimiter 0x7d rest).2 with
            | error stop =>
              rw [parsed'] at parsed
              cases parsed
            | ok out =>
              simp only [parsed', Except.map, Except.ok.injEq, Prod.mk.injEq, List.cons.injEq] at parsed
              exact parsed.1.1.2
          · rw [if_neg more] at parsed
            simp only [Except.ok.injEq, Prod.mk.injEq, List.cons.injEq] at parsed
            exact parsed.1.1.2
        rw [same] at read
        intro other inside
        rw [List.mem_singleton.mp inside]
        exact (backward _ _ read holds (.inl rfl)).1
    · intro readable
      obtain ⟨value, read, holds⟩ := forward (readable member List.mem_cons_self)
      refine ⟨[(member.1, value)], .cons ⟨rfl, holds⟩ .nil, ?_⟩
      rw [read]
      simp only [Except.bind]
      rw [tailText, delimiter_close [] (by decide) (by decide)]
      rfl
  | cons next more ih =>
    intro member fuel enough names clean
    obtain ⟨fuel, rfl⟩ : ∃ k, fuel = k + 2 := ⟨fuel - 2, by simp at enough; omega⟩
    have names' : ∀ other ∈ next :: more, Name other.1 := fun other inside => names other (List.mem_cons_of_mem _ inside)
    have clean' : ∀ other ∈ next :: more, other.2.Clean := fun other inside => clean other (List.mem_cons_of_mem _ inside)
    obtain ⟨forward, backward⟩ := slot_read (clean member List.mem_cons_self) (tail_turn names') fuel
    have later := ih next (fuel + 1) (by simp at enough ⊢; omega) names' clean'
    have comma : delimiter 0x7d (tailText (next :: more)) = (true, memberText next ++ tailText more) := delimiter_comma _ _
    rw [member_tail, field_step (names member List.mem_cons_self)]
    constructor
    · rintro ⟨fields, hold, parsed⟩
      obtain ⟨⟨name, value'⟩, fields, ⟨key, holds⟩, hold', rfl⟩ := List.forall₂_cons_left_iff.mp hold
      cases read : jParseVal (fuel + 1) (member.2.text ++ tailText (next :: more)) with
      | error stop =>
        rw [read] at parsed
        cases parsed
      | ok out =>
        obtain ⟨value, rest⟩ := out
        rw [read] at parsed
        simp only [Except.bind] at parsed
        by_cases more_ : (delimiter 0x7d rest).1 = true
        · rw [if_pos more_] at parsed
          cases parsed' : jParseFields (fuel + 1) (delimiter 0x7d rest).2 with
          | error stop =>
            rw [parsed'] at parsed
            cases parsed
          | ok out =>
            obtain ⟨fields', left⟩ := out
            simp only [parsed', Except.map, Except.ok.injEq, Prod.mk.injEq, List.cons.injEq] at parsed
            obtain ⟨⟨⟨_, same⟩, rfl⟩, rfl⟩ := parsed
            rw [same] at read
            obtain ⟨readable, rfl⟩ := backward _ _ read holds (.inr more_)
            rw [comma] at parsed'
            have rest_ := later.mp ⟨_, hold', parsed'⟩
            intro other inside
            rcases List.mem_cons.mp inside with rfl | inside'
            · exact readable
            · exact rest_ other inside'
        · rw [if_neg more_] at parsed
          simp only [Except.ok.injEq, Prod.mk.injEq, List.cons.injEq] at parsed
          rw [← parsed.1.2] at hold'
          cases hold'
    · intro readable
      obtain ⟨value, read, holds⟩ := forward (readable member List.mem_cons_self)
      obtain ⟨fields, hold, parsed⟩ := later.mpr fun other inside => readable other (List.mem_cons_of_mem _ inside)
      refine ⟨(member.1, value) :: fields, .cons ⟨rfl, holds⟩ hold, ?_⟩
      rw [read]
      simp only [Except.bind]
      rw [comma, if_pos rfl, parsed]
      rfl

def objectText (member : Bytes × Slot) (more : List (Bytes × Slot)) : Bytes :=
  0x7b :: (memberText member ++ tailText more)

def Slot.Free (b : UInt8) : Slot → Prop
  | .raw text => b ∉ text
  | _ => True

theorem raw_free {text : Bytes} : (Slot.raw text).Free b ↔ b ∉ text :=
  Iff.rfl

theorem slot_free (control : b.toNat < 0x20) (slot : Slot) : b ∉ slot.text ↔ slot.Free b := by
  have letters : Visible (utf8 "null") := by decide
  have other (c : UInt8) (large : 0x20 ≤ c.toNat) : b ≠ c := by
    rintro rfl
    omega
  cases slot with
  | null => exact iff_of_true (fun inside => absurd (letters b inside) (by omega)) trivial
  | count n => exact iff_of_true (fun inside => absurd (decimal_int_visible n b inside) (by omega)) trivial
  | raw text =>
    have quote := other 0x22 (by decide)
    simp [Slot.text, Slot.Free, quote]

theorem object_free (control : b.toNat < 0x20) (more : List (Bytes × Slot)) :
    ∀ member : Bytes × Slot, (∀ other ∈ member :: more, Visible other.1) →
      (b ∉ memberText member ++ tailText more ↔ ∀ other ∈ member :: more, other.2.Free b) := by
  have other (c : UInt8) (large : 0x20 ≤ c.toNat) : b ≠ c := by
    rintro rfl
    omega
  have quote := other 0x22 (by decide)
  have colon_ := other 0x3a (by decide)
  have comma := other 0x2c (by decide)
  have close := other 0x7d (by decide)
  have one (member : Bytes × Slot) (name : Visible member.1) : b ∉ memberText member ↔ member.2.Free b := by
    have outside : b ∉ member.1 := fun inside => absurd (name b inside) (by omega)
    rw [← slot_free control]
    simp [memberText, quote, colon_, outside]
  induction more with
  | nil =>
    intro member names
    rw [List.mem_append, not_or, one member (names _ List.mem_cons_self)]
    simp [tailText, close]
  | cons next more ih =>
    intro member names
    have later := ih next fun other inside => names other (List.mem_cons_of_mem _ inside)
    rw [List.mem_append, not_or, one member (names _ List.mem_cons_self), tailText, List.mem_cons, not_or, later,
      List.forall_mem_cons]
    simp [comma]

theorem tail_length (more : List (Bytes × Slot)) : more.length + 1 ≤ (tailText more).length := by
  induction more with
  | nil => exact Nat.le_refl _
  | cons next more ih =>
    rw [tailText, List.length_cons, List.length_cons, List.length_append]
    omega

-- The whole object: it is parsed into what its slots hold if and only if each of them is readable.
theorem object_readable {member : Bytes × Slot} {more : List (Bytes × Slot)}
    (names : ∀ other ∈ member :: more, Name other.1) (visible : ∀ other ∈ member :: more, Visible other.1)
    (clean : ∀ other ∈ member :: more, other.2.Clean) :
    (∃ fields, FieldsHold (member :: more) fields ∧ jsonParse (objectText member more) = .ok (.obj fields, [])) ↔
      ∀ other ∈ member :: more, other.2.Readable := by
  have free : ∀ other ∈ member :: more, other.2.Free 0 := by
    intro other inside
    have := clean other inside
    cases shape : other.2 with
    | raw text =>
      rw [shape] at this
      exact this
    | count n => trivial
    | null => trivial
  have text : (0 : UInt8) ∉ objectText member more := by
    rw [objectText, List.mem_cons, not_or]
    exact ⟨by decide, (object_free (by decide) more member visible).mpr free⟩
  have size := tail_length more
  have enough : more.length + 2 ≤ 2 * (objectText member more).length + 1 := by
    rw [objectText, List.length_cons, List.length_append]
    omega
  have fields := fields_readable more member _ enough names clean
  have open_ : jsonParse (objectText member more) =
      (jParseFields (2 * (objectText member more).length + 1) (memberText member ++ tailText more)).map
        fun (fields, s) => (.obj fields, s) := by
    have ws : jWs (memberText member ++ tailText more) = memberText member ++ tailText more := by
      rw [member_tail, ws_cons (by decide)]
    have head : (memberText member ++ tailText more).head? ≠ some 0x7d := by
      rw [member_tail, List.head?_cons]
      decide
    rw [jsonParse, cstr_self text, fuelFor]
    generalize (objectText member more).length = n
    rw [objectText, parse_val_head _ (by decide), if_neg (by decide), if_pos rfl, ws, if_neg head]
  rw [← fields, open_]
  constructor
  · rintro ⟨values, hold, parsed⟩
    cases read : jParseFields (2 * (objectText member more).length + 1) (memberText member ++ tailText more) with
    | error stop =>
      rw [read] at parsed
      cases parsed
    | ok out =>
      obtain ⟨values', left⟩ := out
      simp only [read, Except.map, Except.ok.injEq, Prod.mk.injEq, Jval.obj.injEq] at parsed
      obtain ⟨rfl, rfl⟩ := parsed
      exact ⟨_, hold, rfl⟩
  · rintro ⟨values, hold, parsed⟩
    refine ⟨values, hold, ?_⟩
    rw [parsed]
    rfl

end SamosaChat.Json
