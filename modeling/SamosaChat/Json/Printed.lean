import SamosaChat.Json.Meaning

set_option autoImplicit false

namespace SamosaChat.JsonMeaning

open Utf8 Text Binary64 OcrJson
open Decimal hiding Numeral
open JsonGrammar hiding Value Chars Kids Fields
open Json hiding Value Chars Kids Fields
open FloatText (isHex hexDigitsValue strtod format formatMagnitude formatDigits formatExponent strip zeros pointed seventeen
  strip_zeros strip_digits zeros_digits seventeen_digits strtod_format)

section Strings

variable {s r : Bytes}

def Spells (s bytes r : Bytes) : Prop :=
  ∃ elements, JsonGrammar.Chars s elements r ∧ bytesOf elements = bytes

theorem spells_plain {plain bytes : Bytes} (all : ∀ c ∈ plain, c ≠ 0x22 ∧ c ≠ 0x5c ∧ ¬c < 0x20) (later : Spells s bytes r) :
    Spells (plain ++ s) (plain ++ bytes) r := by
  induction plain with
  | nil => exact later
  | cons c plain ih =>
    obtain ⟨inner, other, high⟩ := all c List.mem_cons_self
    obtain ⟨elements, chars, same⟩ := ih fun d inside => all d (List.mem_cons_of_mem _ inside)
    exact ⟨.raw c :: elements, .raw inner other high chars, by rw [bytesOf, same]; rfl⟩

theorem spells_escape {e : UInt8} {bytes : Bytes} (known : e ∈ escapes) (later : Spells s bytes r) :
    Spells (0x5c :: e :: s) (escapeByte e :: bytes) r := by
  obtain ⟨elements, chars, rfl⟩ := later
  exact ⟨.escape e :: elements, .escape known chars, by rw [bytesOf]⟩

theorem spells_control {c : UInt8} {bytes : Bytes} (control : c < 0x20) (later : Spells s bytes r) :
    Spells (utf8 "\\u00" ++ [hexDigit (c >>> 4), hexDigit (c &&& 15)] ++ s) (c :: bytes) r := by
  have value : ∀ c : UInt8, c < 0x20 → (∀ x ∈ [0x30, 0x30, hexDigit (c >>> 4), hexDigit (c &&& 15)], isHex x = true) ∧
      hexDigitsValue [0x30, 0x30, hexDigit (c >>> 4), hexDigit (c &&& 15)] = c.toNat ∧ highUnit c.toNat = false ∧
        sequence c.toNat = [c] := every_byte (by decide +kernel)
  obtain ⟨hex, unit, single, bytes_⟩ := value c control
  obtain ⟨elements, chars, rfl⟩ := later
  have letters : utf8 "\\u00" = [0x5c, 0x75, 0x30, 0x30] := by decide
  rw [letters]
  refine ⟨.code (hexDigitsValue [0x30, 0x30, hexDigit (c >>> 4), hexDigit (c &&& 15)]) :: elements, .code hex chars, ?_⟩
  rw [unit, bytes_of_single fun low later _ => by rw [single, Bool.false_and], bytes_]
  rfl

theorem spells_part {c : UInt8} {text bytes : Bytes} {code width : Nat} (decoded : decodeOne (c :: text) = some (code, width))
    (later : Spells s bytes r) : Spells ((escapePart c text).1 ++ s) ((c :: text).take (escapePart c text).2 ++ bytes) r := by
  have letters : escapes = [0x22, 0x5c, 0x2f, 0x62, 0x66, 0x6e, 0x72, 0x74] := by decide
  unfold escapePart
  split_ifs with quote lf cr ht control ascii wide
  · have known : c ∈ escapes ∧ escapeByte c = c := by rcases quote with rfl | rfl <;> decide
    have part := spells_escape known.1 later
    rwa [known.2] at part
  · subst lf
    exact spells_escape (e := 0x6e) (by rw [letters]; decide) later
  · subst cr
    exact spells_escape (e := 0x72) (by rw [letters]; decide) later
  · subst ht
    exact spells_escape (e := 0x74) (by rw [letters]; decide) later
  · exact spells_control control later
  · refine @spells_plain _ _ [c] _ ?_ later
    intro d inside
    rw [List.mem_singleton.mp inside]
    exact ⟨(not_or.mp quote).1, (not_or.mp quote).2, control⟩
  · refine spells_plain ?_ later
    rw [scan_width_decoded decoded]
    intro d inside
    obtain ⟨inner, other⟩ := wide_plain ascii decoded d inside
    refine ⟨inner, other, ?_⟩
    have bound := decoded_wide ascii decoded inside
    rw [UInt8.lt_iff_toNat_lt]
    exact Nat.not_lt.mpr ((by decide : (0x20 : UInt8).toNat ≤ 0x80).trans bound)
  · rw [scan_width_decoded decoded] at wide
    exact absurd (decode_one_width decoded).1 (by omega)

theorem spells_lossy (fuel : Nat) : ∀ text r : Bytes, text.length ≤ fuel →
    Spells (escapedFrom fuel text ++ 0x22 :: r) (lossy text) r := by
  induction fuel with
  | zero =>
    intro text r enough
    rw [List.length_eq_zero_iff.mp (Nat.le_zero.mp enough)]
    exact ⟨[], .close r, rfl⟩
  | succ fuel ih =>
    intro text r enough
    cases text with
    | nil => exact ⟨[], .close r, rfl⟩
    | cons c text =>
      rw [List.length_cons] at enough
      rw [escapedFrom, List.append_assoc]
      cases decoded : decodeOne (c :: text) with
      | none =>
        rw [malformed_part decoded, List.drop_one, List.tail_cons, lossy_none decoded]
        exact spells_plain (by decide) (ih text r (by omega))
      | some pair =>
        obtain ⟨code, width⟩ := pair
        have bound := decode_one_width decoded
        have same := (decodes_part decoded (decodes_quote [])).2
        have part := spells_part decoded
          (ih ((c :: text).drop width) r (by rw [List.length_drop, List.length_cons]; omega))
        rw [same] at part ⊢
        rw [lossy_some decoded]
        exact part

theorem escaped_chars_iff {text r' : Bytes} {elements : List Element} (r : Bytes)
    (chars : JsonGrammar.Chars (escaped text ++ 0x22 :: r) elements r') : bytesOf elements = lossy text ∧ r' = r := by
  have read := chars_decodes _ _ _ _ (Nat.le_refl _) chars
  have wrote := decodes_lossy text.length text r (Nat.le_refl _)
  have same := (read _ (Nat.lt_succ_self _)).symm.trans (wrote _ (Nat.lt_succ_self _))
  exact Prod.mk.inj (Except.ok.inj same)

end Strings

section Numbers

theorem digits_value_bound {digits : Bytes} (all : ∀ c ∈ digits, isDigit c = true) : digitsValue digits < 10 ^ digits.length := by
  induction digits using List.reverseRecOn with
  | nil => decide
  | append_singleton digits c ih =>
    have before := ih fun d inside => all d (List.mem_append_left _ inside)
    have range := (is_digit_iff c).mp (all c (by simp))
    rw [digitsValue, List.foldl_append, ← digitsValue, List.length_append, List.length_singleton, Nat.pow_succ]
    simp only [List.foldl_cons, List.foldl_nil]
    omega

theorem decimal_lead {n : Nat} (some_ : n ≠ 0) : (decimal n).head? ≠ some 0x30 := by
  intro front
  obtain ⟨t, shape⟩ := List.head?_eq_some_iff.mp front
  have value : digitsValue t = n := by
    have read := digits_value_decimal n
    rw [shape] at read
    exact read
  have bound := @digits_value_bound t fun c inside => @decimal_digits n c (by rw [shape]; exact List.mem_cons_of_mem _ inside)
  rw [value] at bound
  cases t with
  | nil => exact some_ (Nat.lt_one_iff.mp bound)
  | cons c t =>
    have short := decimal_length (Nat.succ_pos t.length) bound
    rw [shape] at short
    simp at short

theorem strip_lead {n : Nat} (some_ : n ≠ 0) : strip (decimal n) ≠ [] ∧ (strip (decimal n)).head? ≠ some 0x30 := by
  obtain ⟨k, same⟩ := strip_zeros (decimal n)
  have lead := decimal_lead some_
  have long := decimal_ne_nil n
  generalize strip (decimal n) = digits at same ⊢
  rw [same] at lead long
  cases digits with
  | nil =>
    cases k with
    | zero => exact absurd rfl long
    | succ k => exact absurd rfl lead
  | cons d digits => exact ⟨List.cons_ne_nil _ _, lead⟩

def exponentPower (x : Int) : Power where
  mark := 0x65
  sign := if x < 0 then [0x2d] else [0x2b]
  digits := if x.natAbs < 10 then 0x30 :: decimal x.natAbs else decimal x.natAbs
  marked := .inl rfl
  signed := by
    by_cases below : x < 0
    · exact .inr (.inr (if_pos below))
    · exact .inr (.inl (if_neg below))
  some_ := by
    split_ifs
    · exact List.cons_ne_nil _ _
    · exact decimal_ne_nil _
  all := by
    intro c inside
    split_ifs at inside
    · exact (List.mem_cons.mp inside).elim (fun zero_ => by rw [zero_]; rfl) decimal_digits
    · exact decimal_digits inside

theorem exponent_power_text (x : Int) : (exponentPower x).text = formatExponent x := by
  unfold Power.text exponentPower formatExponent
  by_cases below : x < 0
  · simp only [if_pos below, List.cons_append, List.nil_append]
  · simp only [if_neg below, List.cons_append, List.nil_append]

structure Parts (text : Bytes) where
  whole : Bytes
  fraction : Option Fraction
  some_ : whole ≠ []
  all : ∀ c ∈ whole, isDigit c = true
  lead : whole.head? = some 0x30 → whole = [0x30]
  same : text = whole ++ fraction.elim [] fun fraction => 0x2e :: fraction.digits

def Parts.numeral {text : Bytes} (parts : Parts text) (negative : Bool) (power : Option Power) : Numeral where
  negative := negative
  whole := parts.whole
  fraction := parts.fraction
  power := power
  some_ := parts.some_
  all := parts.all
  lead := parts.lead

theorem parts_numeral_text {text : Bytes} (parts : Parts text) (negative : Bool) (power : Option Power) :
    (parts.numeral negative power).text = (if negative then [0x2d] else []) ++ (text ++ power.elim [] Power.text) := by
  have tail : text ++ power.elim [] Power.text =
      parts.whole ++ (parts.fraction.elim [] (fun fraction => 0x2e :: fraction.digits) ++ power.elim [] Power.text) := by
    rw [← List.append_assoc, ← parts.same]
  rw [tail, Numeral.text, List.append_assoc, List.append_assoc]
  rfl

def pointedParts {k : Nat} {digits : Bytes} (some_ : 0 < k) (all : ∀ c ∈ digits, isDigit c = true) (long : digits ≠ [])
    (lead : digits.head? ≠ some 0x30) : Parts (pointed k digits) :=
  if short : digits.length ≤ k then
    { whole := digits ++ zeros (k - digits.length)
      fraction := none
      some_ := by simp [long]
      all := fun c inside => (List.mem_append.mp inside).elim (all c) zeros_digits
      lead := fun front => by
        rw [List.head?_append_of_ne_nil _ long] at front
        exact absurd front lead
      same := by rw [pointed, if_pos short, Option.elim_none, List.append_nil] }
  else
    { whole := digits.take k
      fraction := some
        { digits := digits.drop k
          some_ := by rw [ne_eq, List.drop_eq_nil_iff]; exact short
          all := fun c inside => all c (List.mem_of_mem_drop inside) }
      some_ := by simp [long, Nat.pos_iff_ne_zero.mp some_]
      all := fun c inside => all c (List.mem_of_mem_take inside)
      lead := fun front => by
        rw [List.head?_take, if_neg (Nat.pos_iff_ne_zero.mp some_)] at front
        exact absurd front lead
      same := by rw [pointed, if_neg short, Option.elim_some] }

def smallParts {digits : Bytes} (k : Nat) (all : ∀ c ∈ digits, isDigit c = true) (long : digits ≠ []) :
    Parts (0x30 :: 0x2e :: zeros k ++ digits) where
  whole := [0x30]
  fraction := some
    { digits := zeros k ++ digits
      some_ := by simp [long]
      all := fun c inside => (List.mem_append.mp inside).elim zeros_digits (all c) }
  some_ := List.cons_ne_nil _ _
  all := fun c inside => by rw [List.mem_singleton.mp inside]; rfl
  lead := fun _ => rfl
  same := rfl

theorem format_numeral (negative : Bool) (magnitude : Magnitude) :
    ∃ numeral : Numeral, numeral.text = format (.finite negative magnitude) := by
  have signed (text : Bytes) (numeral : Numeral) (same : numeral.text = (if negative then [0x2d] else []) ++ text)
      (shape : formatMagnitude magnitude.units = text) : numeral.text = format (.finite negative magnitude) := by
    rw [same, format, shape]
    cases negative <;> rfl
  by_cases none_ : magnitude.units = 0
  · let zero_ : Parts [0x30] :=
      { whole := [0x30], fraction := none, some_ := by simp, all := by simp; rfl, lead := fun _ => rfl, same := rfl }
    exact ⟨zero_.numeral negative none, signed _ _ (parts_numeral_text zero_ negative none) (by rw [formatMagnitude, if_pos none_]; rfl)⟩
  have low := (seventeen_digits none_).1
  obtain ⟨long, lead⟩ := @strip_lead (seventeen magnitude.units).1 (by omega)
  have all : ∀ c ∈ strip (decimal (seventeen magnitude.units).1), isDigit c = true := fun c => strip_digits
  have shape : formatMagnitude magnitude.units =
      formatDigits (strip (decimal (seventeen magnitude.units).1)) (seventeen magnitude.units).2 := by
    rw [formatMagnitude, if_neg none_]
  generalize strip (decimal (seventeen magnitude.units).1) = digits at long lead all shape
  generalize (seventeen magnitude.units).2 = x at shape
  unfold formatDigits at shape
  split_ifs at shape with far below
  · let parts := pointedParts Nat.one_pos all long lead
    refine ⟨parts.numeral negative (some (exponentPower x)), signed _ _ (parts_numeral_text parts negative _) ?_⟩
    rw [shape, Option.elim_some, exponent_power_text]
  · let parts := smallParts (-x - 1).toNat all long
    refine ⟨parts.numeral negative none, signed _ _ (parts_numeral_text parts negative none) ?_⟩
    rw [shape, Option.elim_none, List.append_nil]
  · let parts := pointedParts (k := (x + 1).toNat) (by omega) all long lead
    refine ⟨parts.numeral negative none, signed _ _ (parts_numeral_text parts negative none) ?_⟩
    rw [shape, Option.elim_none, List.append_nil]

end Numbers

section Trees

theorem ws_none (s : Bytes) : Ws s s :=
  ⟨[], (fun c inside => by cases inside), rfl⟩

mutual

theorem value_written : ∀ (value : Jval) (r : Bytes), AllFinite value →
    ∃ tree, JsonGrammar.Value (written value ++ r) tree r ∧ meant tree = mapped lossy value
  | .null, r, _ => ⟨.null, .null r, rfl⟩
  | .bool true, r, _ => ⟨.bool true, .yes r, rfl⟩
  | .bool false, r, _ => ⟨.bool false, .no r, rfl⟩
  | .num num, r, finite => by
    obtain ⟨negative, magnitude, rfl⟩ := finite
    obtain ⟨numeral, text⟩ := format_numeral negative magnitude
    have nothing : FloatText.Stop [] := fun c inside => by cases inside
    have read := strtod_numeral numeral nothing
    rw [text, strtod_format negative magnitude nothing] at read
    refine ⟨.num numeral.negative numeral.mantissa numeral.exponent, ?_, ?_⟩
    · rw [written, ← text]
      exact .num numeral r
    · rw [meant, mapped, (Prod.mk.inj read).1]
  | .str str, r, _ => by
    obtain ⟨elements, chars, same⟩ := spells_lossy str.length str r (Nat.le_refl _)
    refine ⟨.str (bytesOf elements), ?_, by rw [meant, mapped, same]⟩
    rw [written, List.cons_append, List.cons_append, List.append_assoc]
    exact .str chars
  | .arr [], r, _ => ⟨.arr [], .emptyArr (ws_none _), rfl⟩
  | .arr (kid :: kids), r, finite => by
    obtain ⟨trees, inside, same⟩ := kids_written (kid :: kids) r (List.cons_ne_nil _ _) finite
    refine ⟨.arr trees, ?_, by rw [meant, mapped, same]⟩
    rw [written, List.cons_append, List.cons_append, List.append_assoc]
    exact .arr (ws_none _) inside
  | .obj [], r, _ => ⟨.obj [], .emptyObj (ws_none _), rfl⟩
  | .obj ((key, kid) :: fields), r, finite => by
    obtain ⟨trees, inside, same⟩ := fields_written ((key, kid) :: fields) r (List.cons_ne_nil _ _) finite
    refine ⟨.obj trees, ?_, by rw [meant, mapped, same]⟩
    rw [written, List.cons_append, List.cons_append, List.append_assoc]
    exact .obj (ws_none _) inside

theorem kids_written : ∀ (kids : List Jval) (r : Bytes), kids ≠ [] → AllFiniteKids kids →
    ∃ trees, JsonGrammar.Kids (writtenKids true kids ++ 0x5d :: r) trees r ∧ meantKids trees = mappedKids lossy kids
  | [], _, some_, _ => absurd rfl some_
  | [kid], r, _, finite => by
    obtain ⟨tree, value, same⟩ := value_written kid (0x5d :: r) finite.1
    have shape : writtenKids true [kid] ++ 0x5d :: r = written kid ++ 0x5d :: r := by simp [writtenKids]
    rw [shape]
    exact ⟨[tree], .last value (ws_none _), by rw [meantKids, same]; rfl⟩
  | kid :: next :: kids, r, _, finite => by
    obtain ⟨trees, rest, later⟩ := kids_written (next :: kids) r (List.cons_ne_nil _ _) finite.2
    obtain ⟨tree, value, same⟩ := value_written kid (0x2c :: (writtenKids true (next :: kids) ++ 0x5d :: r)) finite.1
    have shape : writtenKids true (kid :: next :: kids) ++ 0x5d :: r =
        written kid ++ 0x2c :: (writtenKids true (next :: kids) ++ 0x5d :: r) := by
      rw [writtenKids, written_kids_more]
      simp
    rw [shape]
    exact ⟨tree :: trees, .more value (ws_none _) (ws_none _) rest, by rw [meantKids, same, later]; rfl⟩

theorem fields_written : ∀ (fields : List (Bytes × Jval)) (r : Bytes), fields ≠ [] → AllFiniteFields fields →
    ∃ trees, JsonGrammar.Fields (writtenFields true fields ++ 0x7d :: r) trees r ∧ meantFields trees = mappedFields lossy fields
  | [], _, some_, _ => absurd rfl some_
  | [(key, kid)], r, _, finite => by
    obtain ⟨tree, value, same⟩ := value_written kid (0x7d :: r) finite.1
    obtain ⟨elements, chars, name⟩ := spells_lossy key.length key (0x3a :: (written kid ++ 0x7d :: r)) (Nat.le_refl _)
    have shape : writtenFields true [(key, kid)] ++ 0x7d :: r =
        0x22 :: (escaped key ++ 0x22 :: 0x3a :: (written kid ++ 0x7d :: r)) := by simp [writtenFields]
    rw [shape]
    refine ⟨[(bytesOf elements, tree)], .last chars (ws_none _) (ws_none _) value (ws_none _), ?_⟩
    rw [meantFields, same, name]
    rfl
  | (key, kid) :: (key', next) :: fields, r, _, finite => by
    obtain ⟨trees, rest, later⟩ := fields_written ((key', next) :: fields) r (List.cons_ne_nil _ _) finite.2
    obtain ⟨tree, value, same⟩ := value_written kid (0x2c :: (writtenFields true ((key', next) :: fields) ++ 0x7d :: r)) finite.1
    obtain ⟨elements, chars, name⟩ := spells_lossy key.length key
      (0x3a :: (written kid ++ 0x2c :: (writtenFields true ((key', next) :: fields) ++ 0x7d :: r))) (Nat.le_refl _)
    have shape : writtenFields true ((key, kid) :: (key', next) :: fields) ++ 0x7d :: r =
        0x22 :: (escaped key ++ 0x22 :: 0x3a ::
          (written kid ++ 0x2c :: (writtenFields true ((key', next) :: fields) ++ 0x7d :: r))) := by
      rw [writtenFields, written_fields_more]
      simp
    rw [shape]
    refine ⟨(bytesOf elements, tree) :: trees, .more chars (ws_none _) (ws_none _) value (ws_none _) (ws_none _) rest, ?_⟩
    rw [meantFields, same, name, later]
    rfl

end

theorem written_word {word : Bytes} {w : Tree} {value : Jval} {r r' : Bytes} {tree : Tree} (known : (word, w) ∈ wordTrees)
    (text : written value = word) (finite : AllFinite value) (same : meant w = mapped lossy value)
    (denotes : JsonGrammar.Value (written value ++ r) tree r') : AllFinite value ∧ meant tree = mapped lossy value ∧ r' = r := by
  rw [text] at denotes
  obtain ⟨rfl, rfl⟩ := word_front known denotes
  exact ⟨finite, same, rfl⟩

theorem written_number {num : Double} {r r' : Bytes} {tree : Tree} (closed : Closed r)
    (denotes : JsonGrammar.Value (format num ++ r) tree r') (stop : FloatText.Stop r') :
    Finite num ∧ meant tree = .num num ∧ r' = r := by
  have words : utf8 "nan" = [0x6e, 0x61, 0x6e] ∧ utf8 "inf" = [0x69, 0x6e, 0x66] ∧ utf8 "-inf" = [0x2d, 0x69, 0x6e, 0x66] := by
    decide
  cases num with
  | nan =>
    rw [format, words.1] at denotes
    rcases lead_kinds (first_byte denotes) with ⟨same, _⟩ | ⟨same, _⟩ | ⟨same, _⟩ | ⟨same, _⟩ | ⟨_, kind⟩
    · exact absurd same (by decide)
    · exact absurd same (by decide)
    · exact absurd same (by decide)
    · exact absurd same (by decide)
    · obtain ⟨word, known, shape⟩ := word_value kind denotes
      rcases word_cases known with ⟨rfl, _⟩ | ⟨rfl, _⟩ | ⟨rfl, _⟩ <;> simp at shape
  | inf negative =>
    cases negative with
    | false =>
      rw [format, if_neg Bool.false_ne_true, words.2.1] at denotes
      rcases lead_kinds (first_byte denotes) with ⟨same, _⟩ | ⟨same, _⟩ | ⟨same, _⟩ | ⟨same, _⟩ | ⟨same, _⟩
      all_goals exact absurd same (by decide)
    | true =>
      rw [format, if_pos rfl, words.2.2] at denotes
      obtain ⟨numeral, shape, _⟩ := (value_number_iff (.inl rfl)).mp denotes
      obtain ⟨d, digits, whole⟩ := List.exists_cons_of_ne_nil numeral.some_
      have digit := numeral.all d (by rw [whole]; exact List.mem_cons_self)
      rw [Numeral.text, whole] at shape
      cases negative : numeral.negative with
      | true =>
        simp only [negative, if_true, List.cons_append, List.nil_append, List.cons.injEq] at shape
        rw [← (List.cons.inj shape.2).1] at digit
        exact absurd digit (by decide)
      | false =>
        simp only [negative, Bool.false_eq_true, if_false, List.cons_append, List.nil_append, List.cons.injEq] at shape
        rw [← shape.1] at digit
        exact absurd digit (by decide)
  | finite negative magnitude =>
    obtain ⟨c, t, shape, kind⟩ := number_head ⟨negative, magnitude, rfl⟩
    have read := strtod_format negative magnitude (closed_stop closed)
    rw [shape, List.cons_append] at denotes
    obtain ⟨numeral, text, rfl⟩ := (value_number_iff kind.symm).mp denotes
    rw [← List.cons_append, ← shape] at text
    rw [text, strtod_numeral numeral stop] at read
    exact ⟨⟨negative, magnitude, rfl⟩, by rw [meant, (Prod.mk.inj read).1], (Prod.mk.inj read).2⟩

theorem ws_plain {s : Bytes} (plain : ∀ c ∈ s.head?, isSpace c = false) : jWs s = s := by
  cases s with
  | nil => rfl
  | cons c s => exact ws_cons (plain c rfl) s

theorem ws_same {s v : Bytes} (blank : Ws s v) (front : ∀ c ∈ v.head?, isSpace c = false) (plain : ∀ c ∈ s.head?, isSpace c = false) :
    v = s :=
  (ws_skip blank front).symm.trans (ws_plain plain)

theorem ws_next {c d : UInt8} {s r : Bytes} (blank : Ws (c :: s) (d :: r)) (plain : isSpace c = false) (mark : isSpace d = false) :
    c = d ∧ s = r := by
  have front := ws_same blank (fun e inside => by cases inside; exact mark) fun e inside => by cases inside; exact plain
  cases front
  exact ⟨rfl, rfl⟩

theorem written_plain (value : Jval) (r : Bytes) : ∀ c ∈ (written value ++ r).head?, isSpace c = false ∧ c ≠ 0x5d := by
  obtain ⟨c, t, shape, plain, open_⟩ := written_head value
  rw [shape]
  intro d inside
  cases inside
  exact ⟨plain, open_⟩

theorem written_kids_shape (kid : Jval) (kids : List Jval) (r : Bytes) : writtenKids true (kid :: kids) ++ r =
    written kid ++ (writtenKids false kids ++ r) := by
  simp [writtenKids]

theorem written_fields_shape (key : Bytes) (kid : Jval) (fields : List (Bytes × Jval)) (r : Bytes) :
    writtenFields true ((key, kid) :: fields) ++ r =
      0x22 :: (escaped key ++ 0x22 :: 0x3a :: (written kid ++ (writtenFields false fields ++ r))) := by
  simp [writtenFields]

theorem written_member {key rest t u v w : Bytes} {kid : Jval} {elements : List Element} {tree : Tree}
    (name : JsonGrammar.Chars (escaped key ++ 0x22 :: 0x3a :: (written kid ++ rest)) elements t) (colon_ : Ws t (0x3a :: u))
    (blank : Ws u v) (value : JsonGrammar.Value v tree w) : bytesOf elements = lossy key ∧ v = written kid ++ rest := by
  obtain ⟨text, rfl⟩ := escaped_chars_iff _ name
  obtain ⟨_, rfl⟩ := ws_next colon_ (by decide) (by decide)
  exact ⟨text, ws_same blank (fun c front => (value_front value c front).1) fun c front => (written_plain kid _ c front).1⟩

mutual

theorem written_value : ∀ (value : Jval) {r r' : Bytes} {tree : Tree}, Closed r → JsonGrammar.Value (written value ++ r) tree r' →
    FloatText.Stop r' → AllFinite value ∧ meant tree = mapped lossy value ∧ r' = r
  | .null, r, r', tree, _, denotes, _ =>
    written_word (w := .null) (by simp [wordTrees]) words_written.2.2 trivial rfl denotes
  | .bool true, r, r', tree, _, denotes, _ =>
    written_word (w := .bool true) (by simp [wordTrees]) words_written.1 trivial rfl denotes
  | .bool false, r, r', tree, _, denotes, _ =>
    written_word (w := .bool false) (by simp [wordTrees]) words_written.2.1 trivial rfl denotes
  | .num num, r, r', tree, closed, denotes, stop => written_number closed denotes stop
  | .str str, r, r', tree, _, denotes, _ => by
    rw [written, List.cons_append, List.cons_append, List.append_assoc] at denotes
    obtain ⟨elements, chars, rfl⟩ := value_string_iff.mp denotes
    obtain ⟨same, rfl⟩ := escaped_chars_iff r chars
    exact ⟨trivial, by rw [meant, mapped, same], rfl⟩
  | .arr [], r, r', tree, _, denotes, _ => by
    obtain ⟨trees, rfl, inside⟩ := value_array_iff.mp denotes
    have skipped : jWs (0x5d :: r) = 0x5d :: r := ws_cons (by decide) r
    rcases inside with ⟨rfl, same⟩ | inside
    · cases skipped.symm.trans same
      exact ⟨trivial, rfl, rfl⟩
    · have here : JsonGrammar.Kids (0x5d :: r) trees r' := by
        rw [← skipped]
        exact inside
      exact absurd rfl (kids_front here 0x5d rfl).2
  | .arr (kid :: kids), r, r', tree, _, denotes, _ => by
    rw [written, List.cons_append, List.cons_append, List.append_assoc] at denotes
    obtain ⟨trees, rfl, inside⟩ := value_array_iff.mp denotes
    have plain := written_plain kid (writtenKids false kids ++ ([0x5d] ++ r))
    rw [← written_kids_shape] at plain
    rw [ws_plain fun c front => (plain c front).1] at inside
    rcases inside with ⟨_, same⟩ | inside
    · rw [same] at plain
      exact absurd rfl (plain 0x5d rfl).2
    · obtain ⟨finite, same, rfl⟩ := written_kids_value (kid :: kids) (List.cons_ne_nil _ _) inside
      exact ⟨finite, by rw [meant, mapped, same], rfl⟩
  | .obj [], r, r', tree, _, denotes, _ => by
    obtain ⟨trees, rfl, inside⟩ := value_object_iff.mp denotes
    have skipped : jWs (0x7d :: r) = 0x7d :: r := ws_cons (by decide) r
    rcases inside with ⟨rfl, same⟩ | inside
    · cases skipped.symm.trans same
      exact ⟨trivial, rfl, rfl⟩
    · have here : JsonGrammar.Fields (0x7d :: r) trees r' := by
        rw [← skipped]
        exact inside
      cases fields_front here
  | .obj ((key, kid) :: fields), r, r', tree, _, denotes, _ => by
    rw [written, List.cons_append, List.cons_append, List.append_assoc] at denotes
    obtain ⟨trees, rfl, inside⟩ := value_object_iff.mp denotes
    rw [written_fields_shape, ws_cons (by decide), ← written_fields_shape] at inside
    rcases inside with ⟨_, same⟩ | inside
    · rw [written_fields_shape] at same
      cases same
    · obtain ⟨finite, same, rfl⟩ := written_fields_value ((key, kid) :: fields) (List.cons_ne_nil _ _) inside
      exact ⟨finite, by rw [meant, mapped, same], rfl⟩

theorem written_kids_value : ∀ (kids : List Jval) {r r' : Bytes} {trees : List Tree}, kids ≠ [] →
    JsonGrammar.Kids (writtenKids true kids ++ 0x5d :: r) trees r' →
      AllFiniteKids kids ∧ meantKids trees = mappedKids lossy kids ∧ r' = r
  | [], _, _, _, some_, _ => absurd rfl some_
  | [kid], r, r', trees, _, inside => by
    rw [written_kids_shape] at inside
    have closed : Closed (0x5d :: r) := closed_cons (.inr (.inl rfl)) r
    cases inside with
    | last value close =>
      obtain ⟨finite, same, rfl⟩ := written_value kid closed value (ws_stop close (by decide))
      obtain ⟨_, rfl⟩ := ws_next close (by decide) (by decide)
      exact ⟨⟨finite, trivial⟩, by rw [meantKids, same]; rfl, rfl⟩
    | more value comma _ _ =>
      obtain ⟨_, _, rfl⟩ := written_value kid closed value (ws_stop comma (by decide))
      exact absurd (ws_next comma (by decide) (by decide)).1 (by decide)
  | kid :: next :: kids, r, r', trees, _, inside => by
    rw [written_kids_shape, written_kids_more, List.cons_append] at inside
    have closed : Closed (0x2c :: (writtenKids true (next :: kids) ++ 0x5d :: r)) := closed_cons (.inl rfl) _
    cases inside with
    | last value close =>
      obtain ⟨_, _, rfl⟩ := written_value kid closed value (ws_stop close (by decide))
      exact absurd (ws_next close (by decide) (by decide)).1 (by decide)
    | more value comma blank rest =>
      obtain ⟨finite, same, rfl⟩ := written_value kid closed value (ws_stop comma (by decide))
      obtain ⟨_, rfl⟩ := ws_next comma (by decide) (by decide)
      have plain := written_plain next (writtenKids false kids ++ 0x5d :: r)
      rw [← written_kids_shape] at plain
      have here := ws_same blank (fun c front => (kids_front rest c front).1) fun c front => (plain c front).1
      rw [here] at rest
      obtain ⟨later, same', rfl⟩ := written_kids_value (next :: kids) (List.cons_ne_nil _ _) rest
      exact ⟨⟨finite, later⟩, by rw [meantKids, same, same']; rfl, rfl⟩

theorem written_fields_value : ∀ (fields : List (Bytes × Jval)) {r r' : Bytes} {trees : List (Bytes × Tree)}, fields ≠ [] →
    JsonGrammar.Fields (writtenFields true fields ++ 0x7d :: r) trees r' →
      AllFiniteFields fields ∧ meantFields trees = mappedFields lossy fields ∧ r' = r
  | [], _, _, _, some_, _ => absurd rfl some_
  | [(key, kid)], r, r', trees, _, inside => by
    rw [written_fields_shape] at inside
    have closed : Closed (0x7d :: r) := closed_cons (.inr (.inr rfl)) r
    cases inside with
    | last name colon_ blank value close =>
      obtain ⟨text, rfl⟩ := written_member name colon_ blank value
      obtain ⟨finite, same, rfl⟩ := written_value kid closed value (ws_stop close (by decide))
      obtain ⟨_, rfl⟩ := ws_next close (by decide) (by decide)
      exact ⟨⟨finite, trivial⟩, by rw [meantFields, same, text]; rfl, rfl⟩
    | more name colon_ blank value comma _ _ =>
      obtain ⟨text, rfl⟩ := written_member name colon_ blank value
      obtain ⟨_, _, rfl⟩ := written_value kid closed value (ws_stop comma (by decide))
      exact absurd (ws_next comma (by decide) (by decide)).1 (by decide)
  | (key, kid) :: (key', next) :: fields, r, r', trees, _, inside => by
    rw [written_fields_shape, written_fields_more, List.cons_append] at inside
    have closed : Closed (0x2c :: (writtenFields true ((key', next) :: fields) ++ 0x7d :: r)) := closed_cons (.inl rfl) _
    cases inside with
    | last name colon_ blank value close =>
      obtain ⟨text, rfl⟩ := written_member name colon_ blank value
      obtain ⟨_, _, rfl⟩ := written_value kid closed value (ws_stop close (by decide))
      exact absurd (ws_next close (by decide) (by decide)).1 (by decide)
    | more name colon_ blank value comma blank' rest =>
      obtain ⟨text, rfl⟩ := written_member name colon_ blank value
      obtain ⟨finite, same, rfl⟩ := written_value kid closed value (ws_stop comma (by decide))
      obtain ⟨_, rfl⟩ := ws_next comma (by decide) (by decide)
      have next_ := ws_same blank' (fields_front_plain rest) fun c front => by
        rw [written_fields_shape] at front
        cases front
        decide
      rw [next_] at rest
      obtain ⟨later, same', rfl⟩ := written_fields_value ((key', next) :: fields) (List.cons_ne_nil _ _) rest
      exact ⟨⟨finite, later⟩, by rw [meantFields, same, text, same']; rfl, rfl⟩

end

end Trees

theorem means_written (value w : Jval) : Means (written value) w ↔ AllFinite value ∧ w = mapped lossy value := by
  have skipped : jWs (written value) = written value := by
    obtain ⟨c, t, shape, plain, _⟩ := written_head value
    rw [shape, ws_cons plain]
  constructor
  · rintro ⟨tree, denotes, rfl⟩
    obtain ⟨rest, value_, blank⟩ := denotes_iff.mp denotes
    rw [skipped, ← List.append_nil (written value)] at value_
    obtain ⟨finite, same, _⟩ := written_value value (fun c front => by cases front) value_ (ws_end_stop (blank ▸ ws_drop rest))
    exact ⟨finite, same⟩
  · rintro ⟨finite, rfl⟩
    obtain ⟨tree, value_, same⟩ := value_written value [] finite
    rw [List.append_nil] at value_
    exact ⟨tree, denotes_iff.mpr ⟨[], by rw [skipped]; exact value_, rfl⟩, same⟩

theorem means_reread (value w : Jval) : Means (written (mapped cstr value)) w ↔ AllFinite value ∧ w = mapped reread value := by
  rw [means_written, all_finite_mapped, mapped_mapped]
  rfl

theorem written_fields_append (first : Bool) (before after : List (Bytes × Jval)) : writtenFields first (before ++ after) =
    writtenFields first before ++ writtenFields (first && before.isEmpty) after := by
  induction before generalizing first with
  | nil => simp [writtenFields]
  | cons field before ih =>
    obtain ⟨key, kid⟩ := field
    rw [List.cons_append, writtenFields, ih, writtenFields]
    simp

theorem means_self {value : Jval} (writable : Writable value) : Means (written value) value := by
  obtain ⟨finite, same⟩ := (writable_iff value).mp writable
  have whole : cstr ∘ reread = reread := funext fun str => cstr_self (reread_text str).2
  have cut : mapped cstr value = value := by
    rw [← same, mapped_mapped, whole]
  have means := (means_reread value value).mpr ⟨finite, same.symm⟩
  rwa [cut] at means

-- What has been read is written as JSON just when it is finite. The first writing settles it, and changes nothing of what is writable.
theorem rewriting_settles {raw : Bytes} {value : Jval} (read : parsed raw = some value) :
    ((∃ w, Means (written value) w) ↔ AllFinite value) ∧ (AllFinite value → ∃ settled,
      parsed (written value) = some settled ∧ parsed (written settled) = some settled ∧ Means (written settled) settled ∧
        (settled = value ↔ Writable value)) := by
  have means := means_reread value
  rw [parsed_cut read] at means
  refine ⟨⟨?_, fun finite => ⟨_, (means _).mpr ⟨finite, rfl⟩⟩⟩, fun finite => ?_⟩
  · rintro ⟨w, meant⟩
    exact ((means w).mp meant).1
  · have self := means_self ((writable_reread value).mpr finite)
    have whole : mapped cstr (mapped reread value) = mapped reread value := by
      rw [mapped_mapped]
      exact congrArg (mapped · value) (funext fun str => cstr_self (reread_text str).2)
    have once := means_parsed ((means _).mpr ⟨finite, rfl⟩)
    have again := means_parsed self
    rw [whole] at once again
    exact ⟨_, once, again, self, fun same => (writable_iff value).mpr ⟨finite, same⟩, fun writable => ((writable_iff value).mp writable).2⟩

-- A string of one byte that begins no character.
theorem lone_byte_settles : ∃ settled, parsed (written (.str [0xff])) = some settled ∧
    parsed (written settled) = some settled ∧ (settled = .str [0xff] ↔ Writable (.str [0xff])) := by
  obtain ⟨settled, once, again, _, same⟩ := (@rewriting_settles [0x22, 0xff, 0x22] (.str [0xff]) rfl).2 trivial
  exact ⟨settled, once, again, same⟩

end SamosaChat.JsonMeaning
