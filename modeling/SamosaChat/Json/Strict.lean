import SamosaChat.Json.Parse
import SamosaChat.Lib.JsonGrammar

set_option autoImplicit false

namespace SamosaChat.OcrJson

open Utf8 Text JsonGrammar
open Json (Stop jWs fuelFor)
open FloatText (isHex hexDigitsValue strtod)

abbrev Cursor := Option Bytes

def peek : Cursor → Except Stop UInt8
  | some s => .ok (s.headD 0)
  | none => .error .outside

def step : Cursor → Cursor
  | some (_ :: s) => some s
  | _ => none

def forward (k : Nat) : Cursor → Cursor
  | some s => if k ≤ s.length then some (s.drop k) else none
  | none => none

abbrev Strict := Except Stop (Option Cursor)

def Strict.andThen (x : Strict) (f : Cursor → Strict) : Strict :=
  match x with
  | .ok (some c) => f c
  | .ok none => .ok none
  | .error stop => .error stop

def ocrJsonWs : Cursor → Strict
  | some s => .ok (some (some (jWs s)))
  | none => .error .outside

def ocrTake (mark : UInt8) (c : Cursor) : Strict :=
  (peek c).bind fun ch => if ch = mark then .ok (some (step c)) else .ok none

def ocrHex : Nat → Cursor → Strict
  | 0, c => .ok (some c)
  | n + 1, c => (peek c).bind fun ch => if isHex ch then ocrHex n (step c) else .ok none

def ocrEscape (more : Cursor → Strict) (c : Cursor) : Strict :=
  (peek c).bind fun e =>
    if e = 0 ∨ e ∉ utf8 "\"\\/bfnrtu" then .ok none
    else if e = 0x75 then (ocrHex 4 (step c)).andThen more
    else more (step c)

def ocrChars : Nat → Cursor → Strict
  | 0, _ => .error .fuel
  | fuel + 1, c =>
    (peek c).bind fun ch =>
      if ch = 0 then .ok none
      else if ch = 0x22 then .ok (some (step c))
      else if ch < 0x20 then .ok none
      else if ch = 0x5c then ocrEscape (ocrChars fuel) (step c)
      else ocrChars fuel (step c)

def ocrJsonString (c : Cursor) : Strict :=
  (ocrTake 0x22 c).andThen fun c => ocrChars (c.elim 1 fun s => s.length + 1) c

def ocrDigits (c : Cursor) : Strict :=
  (peek c).bind fun ch => if isDigit ch then .ok (some (c.map fun s => s.dropWhile isDigit)) else .ok none

def ocrWhole (c : Cursor) : Strict :=
  (peek c).bind fun ch => if ch = 0x30 then .ok (some (step c)) else ocrDigits c

def ocrFraction (c : Cursor) : Strict :=
  (peek c).bind fun ch => if ch = 0x2e then ocrDigits (step c) else .ok (some c)

def ocrPower (c : Cursor) : Strict :=
  (peek c).bind fun ch =>
    if ch = 0x65 ∨ ch = 0x45 then
      (peek (step c)).bind fun sign => ocrDigits (if sign = 0x2b ∨ sign = 0x2d then step (step c) else step c)
    else .ok (some c)

def ocrJsonNumber (c : Cursor) : Strict :=
  (peek c).bind fun ch => ((ocrWhole (if ch = 0x2d then step c else c)).andThen ocrFraction).andThen ocrPower

-- strncmp with the word and its length.
def ocrWord (word : String) : Cursor → Bool
  | some s => (utf8 word).isPrefixOf s
  | none => false

mutual

def ocrJsonValue : Nat → Nat → Cursor → Strict
  | 0, _, _ => .error .fuel
  | fuel + 1, depth, c =>
    if depth > 64 then .ok none
    else
      (ocrJsonWs c).andThen fun c =>
        (peek c).bind fun ch =>
          if ch = 0x22 then ocrJsonString c
          else if ch = 0x2d ∨ isDigit ch then ocrJsonNumber c
          else if ocrWord "true" c ∨ ocrWord "false" c ∨ ocrWord "null" c then
            .ok (some (forward (if ch = 0x74 then 4 else if ch = 0x66 then 5 else 4) c))
          else if ch = 0x5b then
            (ocrJsonWs (step c)).andThen fun c =>
              (peek c).bind fun ch => if ch = 0x5d then .ok (some (step c)) else ocrJsonKids fuel depth c
          else if ch = 0x7b then
            (ocrJsonWs (step c)).andThen fun c =>
              (peek c).bind fun ch => if ch = 0x7d then .ok (some (step c)) else ocrJsonFields fuel depth c
          else .ok none

def ocrJsonKids : Nat → Nat → Cursor → Strict
  | 0, _, _ => .error .fuel
  | fuel + 1, depth, c =>
    ((ocrJsonValue fuel (depth + 1) c).andThen ocrJsonWs).andThen fun c =>
      (peek c).bind fun ch =>
        if ch = 0x5d then .ok (some (step c))
        else if ch = 0x2c then ocrJsonKids fuel depth (step c)
        else .ok none

def ocrJsonFields : Nat → Nat → Cursor → Strict
  | 0, _, _ => .error .fuel
  | fuel + 1, depth, c =>
    ((((((ocrJsonWs c).andThen ocrJsonString).andThen ocrJsonWs).andThen (ocrTake 0x3a)).andThen
      (ocrJsonValue fuel (depth + 1))).andThen ocrJsonWs).andThen fun c =>
        (peek c).bind fun ch =>
          if ch = 0x7d then .ok (some (step c))
          else if ch = 0x2c then ocrJsonFields fuel depth (step c)
          else .ok none

end

def ocrJsonTextComplete (raw : Option Bytes) : Except Stop Bool :=
  match raw with
  | none => .ok false
  | some raw =>
    let read := (ocrJsonWs (some (cstr raw))).andThen fun c =>
      (peek c).bind fun ch =>
        if ch ≠ 0x7b then .ok none else (ocrJsonValue (fuelFor (cstr raw)) 0 c).andThen ocrJsonWs
    read.bind fun found => found.elim (.ok false) fun c => (peek c).map fun ch => ch == 0

-- What a scan of s says: it never leaves the text and ends, and what it accepts is what the grammar lets
-- stand there with the rest behind it, as far as the rest meets `next`.
structure Judges (next : Bytes → Prop) (s : Bytes) (grammar : Bytes → Prop) (x : Strict) : Prop where
  ends : x = .ok none ∨ ∃ r, r <:+ s ∧ x = .ok (some (some r)) ∧ grammar r
  complete : ∀ r, grammar r → next r → x = .ok (some (some r))

section Judges

variable {next next' : Bytes → Prop} {s : Bytes} {grammar grammar' : Bytes → Prop} {x : Strict}

theorem judges_none (no : ∀ r, ¬grammar r) : Judges next s grammar (.ok none) :=
  ⟨.inl rfl, fun r inside => absurd inside (no r)⟩

theorem judges_some {r : Bytes} (rest : r <:+ s) (there : grammar r) (only : ∀ t, grammar t → next t → t = r) :
    Judges next s grammar (.ok (some (some r))) :=
  ⟨.inr ⟨r, rest, rfl, there⟩, fun t inside after => by rw [only t inside after]⟩

theorem judges_congr {t : Bytes} (same : ∀ r, grammar r ↔ grammar' r) (rest : t <:+ s) (judges : Judges next t grammar' x) :
    Judges next s grammar x := by
  refine ⟨?_, fun r inside after => judges.complete r ((same r).mp inside) after⟩
  rcases judges.ends with refused | ⟨r, left, read, inside⟩
  · exact .inl refused
  · exact .inr ⟨r, left.trans rest, read, (same r).mpr inside⟩

theorem judges_weaken (judges : Judges next' s grammar x) (less : ∀ r, next r → next' r) : Judges next s grammar x :=
  ⟨judges.ends, fun r inside after => judges.complete r inside (less r after)⟩

theorem judges_then {behind : Bytes → Bytes → Prop} {f : Cursor → Strict} (first : Judges next' s grammar x)
    (stops : ∀ t r, behind t r → next r → next' t) (later : ∀ t, t <:+ s → grammar t → Judges next t (behind t) (f (some t))) :
    Judges next s (fun r => ∃ t, grammar t ∧ behind t r) (x.andThen f) := by
  constructor
  · rcases first.ends with refused | ⟨t, rest, read, inside⟩
    · rw [refused]
      exact .inl rfl
    · rw [read]
      rcases (later t rest inside).ends with refused | ⟨r, left, read', inside'⟩
      · exact .inl refused
      · exact .inr ⟨r, left.trans rest, read', t, inside, inside'⟩
  · rintro r ⟨t, inside, inside'⟩ after
    have read := first.complete t inside (stops t r inside' after)
    rcases first.ends with refused | ⟨t', rest, read', _⟩
    · rw [read] at refused
      cases refused
    · rw [read] at read'
      cases read'
      rw [read]
      exact (later t rest inside).complete r inside' after

end Judges

section Parts

variable {s : Bytes}

def Anything (_ : Bytes) : Prop :=
  True

theorem ws_judges (s : Bytes) : Judges Anything s (fun r => r = jWs s) (ocrJsonWs (some s)) :=
  judges_some (List.dropWhile_suffix _) rfl fun _ same _ => same

theorem take_judges {mark : UInt8} (some_ : mark ≠ 0) (s : Bytes) :
    Judges Anything s (fun r => s = mark :: r) (ocrTake mark (some s)) := by
  cases s with
  | nil =>
    have other : ocrTake mark (some []) = .ok none := if_neg (Ne.symm some_)
    rw [other]
    exact judges_none fun r same => by cases same
  | cons c s =>
    by_cases same : c = mark
    · have read : ocrTake mark (some (c :: s)) = .ok (some (some s)) := if_pos same
      rw [read, same]
      exact judges_some (List.suffix_cons _ _) rfl fun r shape _ => (List.cons.inj shape).2.symm
    · have other : ocrTake mark (some (c :: s)) = .ok none := if_neg same
      rw [other]
      exact judges_none fun r shape => same (List.cons.inj shape).1

theorem ocr_hex_eq (n : Nat) (s : Bytes) : ocrHex n (some s) =
    .ok (if n ≤ s.length ∧ (∀ c ∈ s.take n, isHex c = true) then some (some (s.drop n)) else none) := by
  induction n generalizing s with
  | zero => simp [ocrHex]
  | succ n ih =>
    cases s with
    | nil =>
      have stop : ocrHex (n + 1) (some []) = .ok none := rfl
      rw [stop, if_neg (by simp)]
    | cons c s =>
      by_cases hex : isHex c = true
      · have more : ocrHex (n + 1) (some (c :: s)) = ocrHex n (some s) := if_pos hex
        rw [more, ih]
        simp [hex]
      · have stop : ocrHex (n + 1) (some (c :: s)) = .ok none := if_neg hex
        rw [stop, if_neg fun all => hex (all.2 c (by simp))]

theorem hex_four_judges {more : Cursor → Strict}
    (inner : ∀ t, t.length ≤ s.length → Judges Anything t (fun r => ∃ elements, Chars t elements r) (more (some t))) :
    Judges Anything s (fun r => ∃ elements, Chars (0x5c :: 0x75 :: s) elements r) ((ocrHex 4 (some s)).andThen more) := by
  have code : ∀ r, (∃ elements, Chars (0x5c :: 0x75 :: s) elements r) ↔
      ∃ a b c d t, s = a :: b :: c :: d :: t ∧ (∀ x ∈ [a, b, c, d], isHex x = true) ∧ ∃ elements, Chars t elements r := by
    intro r
    constructor
    · rintro ⟨elements, chars⟩
      cases chars with
      | raw _ other _ _ => exact absurd rfl other
      | escape known _ => exact absurd known (by decide)
      | code hex rest => exact ⟨_, _, _, _, _, rfl, hex, _, rest⟩
    · rintro ⟨a, b, c, d, t, rfl, hex, elements, rest⟩
      exact ⟨_, .code hex rest⟩
  rw [ocr_hex_eq]
  by_cases all : 4 ≤ s.length ∧ ∀ c ∈ s.take 4, isHex c = true
  · rw [if_pos all]
    match s, all with
    | a :: b :: c :: d :: t, all =>
      have hex : ∀ x ∈ [a, b, c, d], isHex x = true := all.2
      refine judges_congr (fun r => ?_) (List.drop_suffix 4 _) (inner t (by simp only [List.length_cons]; omega))
      rw [code]
      constructor
      · rintro ⟨_, _, _, _, _, shape, _, rest⟩
        cases shape
        exact rest
      · exact fun rest => ⟨a, b, c, d, t, rfl, hex, rest⟩
    | [], all => exact absurd all.1 (by simp)
    | [_], all => exact absurd all.1 (by simp)
    | [_, _], all => exact absurd all.1 (by simp)
    | [_, _, _], all => exact absurd all.1 (by simp)
  · rw [if_neg all]
    apply judges_none
    intro r chars
    obtain ⟨a, b, c, d, t, rfl, hex, _⟩ := (code r).mp chars
    exact all ⟨by simp, hex⟩

theorem escape_known {e : UInt8} {r : Bytes} {elements : List Element} (chars : Chars (0x5c :: e :: s) elements r) :
    e ∈ escapes ++ [0x75] := by
  cases chars with
  | raw _ other _ _ => exact absurd rfl other
  | escape known _ => exact List.mem_append_left _ known
  | code _ _ => decide

theorem escape_judges {more : Cursor → Strict}
    (inner : ∀ t, t.length ≤ s.length → Judges Anything t (fun r => ∃ elements, Chars t elements r) (more (some t))) :
    Judges Anything s (fun r => ∃ elements, Chars (0x5c :: s) elements r) (ocrEscape more (some s)) := by
  have letters : utf8 "\"\\/bfnrtu" = escapes ++ [0x75] := by decide
  cases s with
  | nil =>
    have stop : ocrEscape more (some []) = .ok none := rfl
    rw [stop]
    apply judges_none
    rintro r ⟨elements, chars⟩
    cases chars with
    | raw _ other _ _ => exact other rfl
  | cons e s =>
    have read : ocrEscape more (some (e :: s)) = if e = 0 ∨ e ∉ utf8 "\"\\/bfnrtu" then .ok none
        else if e = 0x75 then (ocrHex 4 (some s)).andThen more else more (some s) := rfl
    have inner' : ∀ t, t.length ≤ s.length → Judges Anything t (fun r => ∃ elements, Chars t elements r) (more (some t)) :=
      fun t less => inner t (less.trans (Nat.le_succ _))
    rw [read, letters]
    by_cases unknown : e = 0 ∨ e ∉ escapes ++ [0x75]
    · rw [if_pos unknown]
      apply judges_none
      rintro r ⟨elements, chars⟩
      have known := escape_known chars
      rcases unknown with rfl | other
      · exact absurd known (by decide)
      · exact other known
    rw [if_neg unknown]
    rw [not_or, not_not, List.mem_append, List.mem_singleton] at unknown
    by_cases code : e = 0x75
    · rw [if_pos code, code]
      exact judges_congr (fun r => Iff.rfl) (List.suffix_cons _ _) (hex_four_judges inner')
    · rw [if_neg code]
      have known := unknown.2.resolve_right code
      refine judges_congr (fun r => ?_) (List.suffix_cons _ _) (inner' s (Nat.le_refl _))
      constructor
      · rintro ⟨elements, chars⟩
        cases chars with
        | raw _ other _ _ => exact absurd rfl other
        | escape _ rest => exact ⟨_, rest⟩
        | code _ _ => exact absurd rfl code
      · exact fun ⟨elements, rest⟩ => ⟨_, .escape known rest⟩

theorem ocr_chars_judges (fuel : Nat) : ∀ s : Bytes, s.length < fuel →
    Judges Anything s (fun r => ∃ elements, Chars s elements r) (ocrChars fuel (some s)) := by
  induction fuel with
  | zero => exact fun s less => absurd less (Nat.not_lt_zero _)
  | succ fuel ih =>
    intro s small
    cases s with
    | nil =>
      have stop : ocrChars (fuel + 1) (some []) = .ok none := rfl
      rw [stop]
      apply judges_none
      rintro r ⟨elements, chars⟩
      cases chars
    | cons c s =>
      rw [List.length_cons] at small
      have read : ocrChars (fuel + 1) (some (c :: s)) = if c = 0 then .ok none
          else if c = 0x22 then .ok (some (some s))
          else if c < 0x20 then .ok none
          else if c = 0x5c then ocrEscape (ocrChars fuel) (some s)
          else ocrChars fuel (some s) := rfl
      rw [read]
      by_cases nul : c = 0
      · rw [if_pos nul]
        apply judges_none
        rintro r ⟨elements, chars⟩
        cases chars with
        | close => cases nul
        | raw _ _ high _ => exact high (by rw [nul]; decide)
        | escape _ _ => cases nul
        | code _ _ => cases nul
      rw [if_neg nul]
      by_cases quote : c = 0x22
      · rw [if_pos quote]
        refine judges_some (List.suffix_cons _ _) ⟨[], by rw [quote]; exact .close s⟩ ?_
        rintro r ⟨elements, chars⟩ _
        cases chars with
        | close => rfl
        | raw inner _ _ _ => exact absurd quote inner
        | escape _ _ => exact absurd quote (by decide)
        | code _ _ => exact absurd quote (by decide)
      rw [if_neg quote]
      by_cases control : c < 0x20
      · rw [if_pos control]
        apply judges_none
        rintro r ⟨elements, chars⟩
        cases chars with
        | close => exact quote rfl
        | raw _ _ high _ => exact high control
        | escape _ _ => exact absurd control (by decide)
        | code _ _ => exact absurd control (by decide)
      rw [if_neg control]
      by_cases backslash : c = 0x5c
      · rw [if_pos backslash, backslash]
        exact judges_congr (fun r => Iff.rfl) (List.suffix_cons _ _) (escape_judges fun t less => ih t (by omega))
      · rw [if_neg backslash]
        refine judges_congr (fun r => ?_) (List.suffix_cons _ _) (ih s (by omega))
        constructor
        · rintro ⟨elements, chars⟩
          cases chars with
          | close => exact absurd rfl quote
          | raw _ _ _ rest => exact ⟨_, rest⟩
          | escape _ _ => exact absurd rfl backslash
          | code _ _ => exact absurd rfl backslash
        · exact fun ⟨elements, rest⟩ => ⟨_, .raw quote backslash control rest⟩

theorem ocr_string_judges (s : Bytes) :
    Judges Anything s (fun r => ∃ t elements, s = 0x22 :: t ∧ Chars t elements r) (ocrJsonString (some s)) := by
  refine judges_congr (fun r => ?_) (List.suffix_refl _)
    (judges_then (take_judges (by decide) s) (fun _ _ _ _ => trivial) fun t _ _ => ocr_chars_judges (t.length + 1) t (Nat.lt_succ_self _))
  constructor
  · rintro ⟨t, elements, shape, chars⟩
    exact ⟨t, shape, elements, chars⟩
  · rintro ⟨t, shape, elements, chars⟩
    exact ⟨t, elements, shape, chars⟩

def Digits (s digits r : Bytes) : Prop :=
  s = digits ++ r ∧ digits ≠ [] ∧ ∀ c ∈ digits, isDigit c = true

def NoDigit (r : Bytes) : Prop :=
  ∀ c ∈ r.head?, isDigit c = false

theorem ocr_digits_judges (s : Bytes) : Judges NoDigit s (fun r => ∃ digits, Digits s digits r) (ocrDigits (some s)) := by
  cases s with
  | nil =>
    have stop : ocrDigits (some []) = .ok none := rfl
    rw [stop]
    apply judges_none
    rintro r ⟨digits, shape, some_, _⟩
    exact some_ (List.append_eq_nil_iff.mp shape.symm).1
  | cons c s =>
    by_cases digit : isDigit c = true
    · have read : ocrDigits (some (c :: s)) = .ok (some (some ((c :: s).dropWhile isDigit))) := if_pos digit
      rw [read]
      refine judges_some (List.dropWhile_suffix _) ⟨(c :: s).takeWhile isDigit, ?_, ?_, ?_⟩ ?_
      · exact (List.takeWhile_append_dropWhile).symm
      · simp [digit]
      · exact fun d inside => List.mem_takeWhile_imp inside
      · rintro r ⟨digits, shape, _, all⟩ stop
        rw [shape]
        exact (Decimal.digits_end all stop).2.symm
    · have stop : ocrDigits (some (c :: s)) = .ok none := if_neg digit
      rw [stop]
      apply judges_none
      rintro r ⟨digits, shape, some_, all⟩
      cases digits with
      | nil => exact some_ rfl
      | cons d digits =>
        cases shape
        exact digit (all c List.mem_cons_self)

theorem ocr_whole_judges (s : Bytes) : Judges NoDigit s
    (fun r => ∃ whole, Digits s whole r ∧ (whole.head? = some 0x30 → whole = [0x30])) (ocrWhole (some s)) := by
  by_cases zero : ∃ t, s = 0x30 :: t
  · obtain ⟨t, rfl⟩ := zero
    have read : ocrWhole (some (0x30 :: t)) = .ok (some (some t)) := rfl
    rw [read]
    refine judges_some (List.suffix_cons _ _) ⟨[0x30], ⟨rfl, by simp, by decide⟩, fun _ => rfl⟩ ?_
    rintro r ⟨whole, ⟨shape, some_, all⟩, lead⟩ _
    cases whole with
    | nil => exact absurd rfl some_
    | cons d whole =>
      cases shape
      cases lead rfl
      rfl
  · have read : ocrWhole (some s) = ocrDigits (some s) := by
      cases s with
      | nil => rfl
      | cons c s => exact if_neg fun same : c = 0x30 => zero ⟨s, by rw [same]⟩
    rw [read]
    refine judges_congr (fun r => ?_) (List.suffix_refl _) (ocr_digits_judges s)
    constructor
    · exact fun ⟨whole, digits, _⟩ => ⟨whole, digits⟩
    · rintro ⟨whole, digits⟩
      refine ⟨whole, digits, fun front => ?_⟩
      cases whole with
      | nil => cases front
      | cons d whole =>
        cases front
        exact absurd ⟨_, digits.1⟩ zero

theorem ocr_fraction_judges (s : Bytes) : Judges (fun r => NoDigit r ∧ ∀ c ∈ r.head?, c ≠ 0x2e) s
    (fun r => ∃ fraction : Option Fraction, s = fraction.elim [] (fun fraction => 0x2e :: fraction.digits) ++ r)
    (ocrFraction (some s)) := by
  by_cases point : ∃ t, s = 0x2e :: t
  · obtain ⟨t, rfl⟩ := point
    have read : ocrFraction (some (0x2e :: t)) = ocrDigits (some t) := rfl
    rw [read]
    have digits := ocr_digits_judges t
    constructor
    · rcases digits.ends with refused | ⟨r, rest, accepted, digits, shape, some_, all⟩
      · exact .inl refused
      · exact .inr ⟨r, rest.trans (List.suffix_cons _ _), accepted, some ⟨digits, some_, all⟩, by rw [shape]; rfl⟩
    · rintro r ⟨fraction, shape⟩ ⟨stop, none_⟩
      cases fraction with
      | none =>
        cases shape
        exact absurd rfl (none_ 0x2e rfl)
      | some fraction =>
        cases shape
        exact digits.complete r ⟨fraction.digits, rfl, fraction.some_, fraction.all⟩ stop
  · have read : ocrFraction (some s) = .ok (some (some s)) := by
      cases s with
      | nil => rfl
      | cons c s => exact if_neg fun same : c = 0x2e => point ⟨s, by rw [same]⟩
    rw [read]
    refine judges_some (List.suffix_refl _) ⟨none, rfl⟩ ?_
    rintro r ⟨fraction, shape⟩ _
    cases fraction with
    | none => exact shape.symm
    | some fraction => exact absurd ⟨_, shape⟩ point

theorem ocr_power_read {c : UInt8} {sign t : Bytes} (kind : c = 0x65 ∨ c = 0x45)
    (signed : sign = [] ∨ sign = [0x2b] ∨ sign = [0x2d]) (plain : sign = [] → ∀ d ∈ t.head?, d ≠ 0x2b ∧ d ≠ 0x2d) :
    ocrPower (some (c :: (sign ++ t))) = ocrDigits (some t) := by
  have marked (t : Bytes) : ocrPower (some (c :: t)) = (peek (some t)).bind fun sign =>
      ocrDigits (if sign = 0x2b ∨ sign = 0x2d then step (some t) else some t) := if_pos kind
  rw [marked]
  rcases signed with rfl | rfl | rfl
  · cases t with
    | nil => rfl
    | cons d t =>
      obtain ⟨plus, minus⟩ := plain rfl d rfl
      exact congrArg ocrDigits (if_neg fun same => same.elim plus minus)
  · rfl
  · rfl

theorem sign_split (t : Bytes) : ∃ sign t', t = sign ++ t' ∧ (sign = [] ∨ sign = [0x2b] ∨ sign = [0x2d]) ∧
    (sign = [] → ∀ d ∈ t'.head?, d ≠ 0x2b ∧ d ≠ 0x2d) := by
  cases t with
  | nil => exact ⟨[], [], rfl, .inl rfl, fun _ d front => by cases front⟩
  | cons d t =>
    by_cases plus : d = 0x2b
    · exact ⟨[0x2b], t, by rw [plus]; rfl, .inr (.inl rfl), fun none_ => by cases none_⟩
    by_cases minus : d = 0x2d
    · exact ⟨[0x2d], t, by rw [minus]; rfl, .inr (.inr rfl), fun none_ => by cases none_⟩
    refine ⟨[], d :: t, rfl, .inl rfl, fun _ e front => ?_⟩
    cases front
    exact ⟨plus, minus⟩

theorem ocr_power_judges (s : Bytes) : Judges FloatText.Stop s
    (fun r => ∃ power : Option Power, s = power.elim [] Power.text ++ r) (ocrPower (some s)) := by
  by_cases mark : ∃ c t, s = c :: t ∧ (c = 0x65 ∨ c = 0x45)
  · obtain ⟨c, t, rfl, kind⟩ := mark
    constructor
    · obtain ⟨sign, t', rfl, signed, plain⟩ := sign_split t
      rw [ocr_power_read kind signed plain]
      rcases (ocr_digits_judges t').ends with refused | ⟨r, rest, accepted, digits, behind, some_, all⟩
      · exact .inl refused
      · refine .inr ⟨r, rest.trans ((List.suffix_append _ _).trans (List.suffix_cons _ _)), accepted,
          some ⟨c, sign, digits, kind, signed, some_, all⟩, ?_⟩
        rw [behind, Option.elim_some, Power.text]
        simp
    · rintro r ⟨power, whole⟩ stop
      cases power with
      | none =>
        cases whole
        exact absurd (stop c rfl).2.2.1 (by rcases kind with rfl | rfl <;> decide)
      | some power =>
        rw [Option.elim_some, Power.text, List.cons_append] at whole
        obtain ⟨rfl, rfl⟩ := List.cons.inj whole
        rw [List.append_assoc, ocr_power_read power.marked power.signed]
        · exact (ocr_digits_judges _).complete r ⟨power.digits, rfl, power.some_, power.all⟩ fun d front => (stop d front).1
        · intro _ d front
          obtain ⟨e, digits, shape⟩ := List.exists_cons_of_ne_nil power.some_
          rw [shape] at front
          have same : e = d := Option.some.inj front
          have digit := Decimal.digit_not_space (power.all d (by rw [shape, same]; exact List.mem_cons_self))
          exact ⟨digit.2.2, digit.2.1⟩
  · have read : ocrPower (some s) = .ok (some (some s)) := by
      cases s with
      | nil => rfl
      | cons c s => exact if_neg fun same : c = 0x65 ∨ c = 0x45 => mark ⟨c, s, rfl, same⟩
    rw [read]
    refine judges_some (List.suffix_refl _) ⟨none, rfl⟩ ?_
    rintro r ⟨power, shape⟩ _
    cases power with
    | none => exact shape.symm
    | some power => exact absurd ⟨_, _, shape, power.marked⟩ mark

theorem stop_parts {r : Bytes} (stop : FloatText.Stop r) : NoDigit r ∧ ∀ c ∈ r.head?, c ≠ 0x2e :=
  ⟨fun c front => (stop c front).1, fun c front => (stop c front).2.1⟩

theorem power_parts {power : Option Power} {t r : Bytes} (shape : t = power.elim [] Power.text ++ r) (stop : FloatText.Stop r) :
    NoDigit t ∧ ∀ c ∈ t.head?, c ≠ 0x2e := by
  rw [shape]
  cases power with
  | none => exact stop_parts stop
  | some power =>
    obtain ⟨u, text, _, digit, point⟩ := power.first
    rw [Option.elim_some, text, List.cons_append]
    constructor
    · intro c front
      cases front
      exact digit
    · intro c front
      cases front
      exact point

theorem fraction_parts {fraction : Option Fraction} {t r : Bytes}
    (shape : t = fraction.elim [] (fun fraction => 0x2e :: fraction.digits) ++ r) (stop : NoDigit r) : NoDigit t := by
  rw [shape]
  cases fraction with
  | none => exact stop
  | some fraction =>
    intro c front
    cases front
    decide

theorem ocr_unsigned_judges (negative : Bool) (s : Bytes) : Judges FloatText.Stop s
    (fun r => ∃ numeral : Numeral, numeral.negative = negative ∧
      s = numeral.whole ++ (numeral.fractionText ++ (numeral.powerText ++ r)))
    (((ocrWhole (some s)).andThen ocrFraction).andThen ocrPower) := by
  have front := judges_then (ocr_whole_judges s) (fun t r ⟨_, shape⟩ stop => fraction_parts shape stop.1)
    fun t _ _ => ocr_fraction_judges t
  have both := judges_then front (fun t r ⟨_, shape⟩ stop => power_parts shape stop) fun t _ _ => ocr_power_judges t
  refine judges_congr (fun r => ?_) (List.suffix_refl _) both
  constructor
  · rintro ⟨numeral, _, shape⟩
    exact ⟨_, ⟨_, ⟨numeral.whole, ⟨shape, numeral.some_, numeral.all⟩, numeral.lead⟩, numeral.fraction, rfl⟩, numeral.power, rfl⟩
  · rintro ⟨_, ⟨_, ⟨whole, ⟨shape, some_, all⟩, lead⟩, fraction, rfl⟩, power, rfl⟩
    exact ⟨⟨negative, whole, fraction, power, some_, all, lead⟩, rfl, shape⟩

theorem ocr_number_judges (s : Bytes) : Judges FloatText.Stop s (fun r => ∃ numeral : Numeral, s = numeral.text ++ r)
    (ocrJsonNumber (some s)) := by
  have text (numeral : Numeral) (r : Bytes) : numeral.text ++ r =
      (if numeral.negative then [0x2d] else []) ++ (numeral.whole ++ (numeral.fractionText ++ (numeral.powerText ++ r))) := by
    simp [Numeral.text, Numeral.fractionText, Numeral.powerText]
  by_cases minus : ∃ t, s = 0x2d :: t
  · obtain ⟨t, rfl⟩ := minus
    refine judges_congr (fun r => ?_) (List.suffix_cons _ _) (ocr_unsigned_judges true t)
    constructor
    · rintro ⟨numeral, shape⟩
      rw [text] at shape
      cases negative : numeral.negative with
      | true =>
        rw [negative] at shape
        exact ⟨numeral, negative, (List.cons.inj shape).2⟩
      | false =>
        obtain ⟨c, digits, whole⟩ := List.exists_cons_of_ne_nil numeral.some_
        rw [negative, whole] at shape
        have digit := numeral.all c (by rw [whole]; exact List.mem_cons_self)
        rw [← (List.cons.inj shape).1] at digit
        exact absurd digit (by decide)
    · rintro ⟨numeral, negative, shape⟩
      refine ⟨numeral, ?_⟩
      rw [text, negative, shape]
      rfl
  · have read : ocrJsonNumber (some s) = ((ocrWhole (some s)).andThen ocrFraction).andThen ocrPower := by
      cases s with
      | nil => rfl
      | cons c s =>
        have plain : (if c = 0x2d then step (some (c :: s)) else some (c :: s)) = some (c :: s) :=
          if_neg fun same : c = 0x2d => minus ⟨s, by rw [same]⟩
        exact congrArg (fun c => ((ocrWhole c).andThen ocrFraction).andThen ocrPower) plain
    rw [read]
    refine judges_congr (fun r => ?_) (List.suffix_refl _) (ocr_unsigned_judges false s)
    constructor
    · rintro ⟨numeral, shape⟩
      rw [text] at shape
      cases negative : numeral.negative with
      | true =>
        rw [negative] at shape
        exact absurd ⟨_, shape⟩ minus
      | false =>
        rw [negative] at shape
        exact ⟨numeral, negative, shape⟩
    · rintro ⟨numeral, negative, shape⟩
      refine ⟨numeral, ?_⟩
      rw [text, negative, shape]
      rfl

end Parts

end SamosaChat.OcrJson
