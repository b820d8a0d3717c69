import SamosaChat.Json.Inside
import SamosaChat.Json.Write
import SamosaChat.Lib.Seventeen

set_option autoImplicit false

namespace SamosaChat.Json

open Utf8 Text Decimal FloatText Binary64

def Decodes (s bytes rest : Bytes) : Prop :=
  ∀ fuel, s.length < fuel → stringLoop fuel s = .ok (bytes, rest)

theorem decodes_quote (rest : Bytes) : Decodes (0x22 :: rest) [] rest := by
  intro fuel enough
  obtain ⟨fuel, rfl⟩ := Nat.exists_eq_add_of_lt (Nat.lt_of_le_of_lt (Nat.zero_le _) enough)
  rw [stringLoop, if_pos rfl]

variable {c : UInt8} {s t : Bytes}

variable {bytes rest text : Bytes} {num : Double}

theorem decodes_step {c : UInt8} {s part t bytes rest : Bytes} (inner : c ≠ 0x22)
    (step : stringStep c s = .ok (part, t)) (short : t.length ≤ s.length) (later : Decodes t bytes rest) :
    Decodes (c :: s) (part ++ bytes) rest := by
  intro fuel enough
  obtain ⟨fuel, rfl⟩ := Nat.exists_eq_add_of_lt (Nat.lt_of_le_of_lt (Nat.zero_le _) enough)
  rw [List.length_cons] at enough
  rw [Nat.zero_add, string_loop_step inner step, later fuel (by omega)]
  rfl

theorem decodes_plain {plain s bytes rest : Bytes} (all : ∀ c ∈ plain, c ≠ 0x22 ∧ c ≠ 0x5c)
    (later : Decodes s bytes rest) : Decodes (plain ++ s) (plain ++ bytes) rest := by
  induction plain with
  | nil => exact later
  | cons c plain ih =>
    obtain ⟨inner, other⟩ := all c (by simp)
    exact @decodes_step _ _ [c] _ _ _ inner (if_neg other) (Nat.le_refl _) (ih fun d inside => all d (List.mem_cons_of_mem _ inside))

theorem decodes_escape {e : UInt8} (other : e ≠ 0x75) (later : Decodes s bytes rest) :
    Decodes (0x5c :: e :: s) (unescape e :: bytes) rest := by
  refine @decodes_step _ _ [unescape e] _ _ _ (by decide) ?_ (Nat.le_succ _) later
  rw [stringStep, if_pos rfl]
  exact if_neg other

theorem decodes_control (control : c < 0x20) (later : Decodes s bytes rest) :
    Decodes (utf8 "\\u00" ++ [hexDigit (c >>> 4), hexDigit (c &&& 15)] ++ s) (c :: bytes) rest := by
  have value : ∀ c : UInt8, c < 0x20 →
      strtoul16 (cstr [0x30, 0x30, hexDigit (c >>> 4), hexDigit (c &&& 15)]) = c.toNat ∧ isHigh c.toNat = false ∧
        jPutCode c.toNat = [c] := every_byte (by decide +kernel)
  obtain ⟨code, single, put⟩ := value c control
  have letters : utf8 "\\u00" = [0x5c, 0x75, 0x30, 0x30] := by decide
  rw [letters]
  refine @decodes_step _ (0x75 :: 0x30 :: 0x30 :: hexDigit (c >>> 4) :: hexDigit (c &&& 15) :: s) [c] _ _ _
    (by decide) ?_ (by simp; omega) later
  have four_ : four (0x30 :: 0x30 :: hexDigit (c >>> 4) :: hexDigit (c &&& 15) :: s) = c.toNat := code
  rw [string_step_code, unicode_read (by simp), four_, lowHalf, single]
  simp only [Bool.false_and, Bool.false_eq_true, if_false, Except.bind, put]
  rfl

theorem wide_plain {code width : Nat} (large : ¬c < 0x80) (decoded : decodeOne (c :: rest) = some (code, width)) :
    ∀ d ∈ (c :: rest).take width, d ≠ 0x22 ∧ d ≠ 0x5c := by
  intro d inside
  have bound := decoded_wide large decoded inside
  constructor
  · rintro rfl
    exact absurd bound (by decide)
  · rintro rfl
    exact absurd bound (by decide)

def StringText (text : Bytes) : Prop :=
  Valid text ∧ (0 : UInt8) ∉ text

theorem decodes_part {code width : Nat} (decoded : decodeOne (c :: text) = some (code, width)) (later : Decodes s bytes rest) :
    Decodes ((escapePart c text).1 ++ s) ((c :: text).take (escapePart c text).2 ++ bytes) rest ∧
      (escapePart c text).2 = width := by
  have narrow : c < 0x80 → width = 1 := by
    intro small
    rw [decode_one_ascii ((first_range c).1.mp small)] at decoded
    exact (Prod.mk.inj (Option.some.inj decoded)).2.symm
  unfold escapePart
  split_ifs with quote lf cr ht control ascii wide
  · have small : c < 0x80 := by rcases quote with rfl | rfl <;> decide
    refine ⟨?_, (narrow small).symm⟩
    rcases quote with rfl | rfl
    · exact decodes_escape (by decide) later
    · exact decodes_escape (by decide) later
  · subst lf
    exact ⟨decodes_escape (e := 0x6e) (by decide) later, (narrow (by decide)).symm⟩
  · subst cr
    exact ⟨decodes_escape (e := 0x72) (by decide) later, (narrow (by decide)).symm⟩
  · subst ht
    exact ⟨decodes_escape (e := 0x74) (by decide) later, (narrow (by decide)).symm⟩
  · have small : c < 0x80 := UInt8.lt_trans control (by decide)
    exact ⟨decodes_control control later, (narrow small).symm⟩
  · refine ⟨@decodes_plain [c] _ _ _ ?_ later, (narrow ascii).symm⟩
    intro d inside
    rw [List.mem_singleton.mp inside]
    exact not_or.mp quote
  · rw [scan_width_decoded decoded]
    exact ⟨decodes_plain (wide_plain ascii decoded) later, rfl⟩
  · rw [scan_width_decoded decoded] at wide
    exact absurd (decode_one_width decoded).1 (by omega)

theorem decodes_escaped (fuel : Nat) : ∀ text rest : Bytes, text.length ≤ fuel → Valid text →
      Decodes (escapedFrom fuel text ++ 0x22 :: rest) text rest := by
  induction fuel with
  | zero =>
    intro text rest enough valid
    rw [List.length_eq_zero_iff.mp (Nat.le_zero.mp enough)]
    exact decodes_quote rest
  | succ fuel ih =>
    intro text rest enough valid
    cases text with
    | nil => exact decodes_quote rest
    | cons c text =>
      rw [List.length_cons] at enough
      obtain ⟨code, width, decoded, valid'⟩ := valid_step valid (by simp)
      have bound := decode_one_width decoded
      have later := ih ((c :: text).drop width) rest
        (by rw [List.length_drop, List.length_cons]; omega) valid'
      obtain ⟨decodes, same⟩ := decodes_part decoded later
      rw [same, List.take_append_drop] at decodes
      rw [escapedFrom, same, List.append_assoc]
      exact decodes

theorem str_raw_escaped (rest : Bytes) (string : StringText text) :
    jParseStrRaw (0x22 :: escaped text ++ 0x22 :: rest) = .ok (text, rest) := by
  have loop : Decodes (escaped text ++ 0x22 :: rest) text rest :=
    decodes_escaped text.length text rest (Nat.le_refl _) string.1
  unfold jParseStrRaw advance
  rw [if_pos (by simp)]
  change ((stringLoop ((escaped text ++ 0x22 :: rest).length + 1) (escaped text ++ 0x22 :: rest)).bind fun out =>
    .ok (cstr out.1, out.2)) = _
  rw [loop _ (Nat.lt_succ_self _)]
  exact congrArg (fun text => Except.ok (text, rest)) (cstr_self string.2)

mutual

def written : Jval → Bytes
  | .null => utf8 "null"
  | .bool boolean => utf8 (if boolean then "true" else "false")
  | .num num => format num
  | .str str => 0x22 :: escaped str ++ [0x22]
  | .arr kids => 0x5b :: writtenKids true kids ++ [0x5d]
  | .obj fields => 0x7b :: writtenFields true fields ++ [0x7d]

def writtenKids (first : Bool) : List Jval → Bytes
  | [] => []
  | kid :: kids => (if first then [] else [0x2c]) ++ (written kid ++ writtenKids false kids)

def writtenFields (first : Bool) : List (Bytes × Jval) → Bytes
  | [] => []
  | (key, kid) :: fields =>
    (if first then [] else [0x2c]) ++ (0x22 :: escaped key ++ 0x22 :: 0x3a :: (written kid ++ writtenFields false fields))

end

mutual

-- Trees whose numbers are printed exactly and whose strings are UTF-8 without a terminator inside.
def Printable : Jval → Prop
  | .null => True
  | .bool _ => True
  | .num num => ExactlyPrintable num
  | .str str => StringText str
  | .arr kids => PrintableKids kids
  | .obj fields => PrintableFields fields

def PrintableKids : List Jval → Prop
  | [] => True
  | kid :: kids => Printable kid ∧ PrintableKids kids

def PrintableFields : List (Bytes × Jval) → Prop
  | [] => True
  | (key, kid) :: fields => StringText key ∧ Printable kid ∧ PrintableFields fields

end

def Finite (num : Double) : Prop :=
  ∃ negative magnitude, num = .finite negative magnitude

mutual

def Writable : Jval → Prop
  | .null => True
  | .bool _ => True
  | .num num => Finite num
  | .str str => StringText str
  | .arr kids => WritableKids kids
  | .obj fields => WritableFields fields

def WritableKids : List Jval → Prop
  | [] => True
  | kid :: kids => Writable kid ∧ WritableKids kids

def WritableFields : List (Bytes × Jval) → Prop
  | [] => True
  | (key, kid) :: fields => StringText key ∧ Writable kid ∧ WritableFields fields

end

mutual

theorem printable_writable : ∀ value : Jval, Printable value → Writable value
  | .null, _ => trivial
  | .bool _, _ => trivial
  | .num .nan, printable => printable.elim
  | .num (.inf _), printable => printable.elim
  | .num (.finite negative magnitude), _ => ⟨negative, magnitude, rfl⟩
  | .str _, printable => printable
  | .arr kids, printable => printable_kids_writable kids printable
  | .obj fields, printable => printable_fields_writable fields printable

theorem printable_kids_writable : ∀ kids : List Jval, PrintableKids kids → WritableKids kids
  | [], _ => trivial
  | kid :: kids, printable => ⟨printable_writable kid printable.1, printable_kids_writable kids printable.2⟩

theorem printable_fields_writable : ∀ fields : List (Bytes × Jval), PrintableFields fields → WritableFields fields
  | [], _ => trivial
  | (_, kid) :: fields, printable =>
    ⟨printable.1, printable_writable kid printable.2.1, printable_fields_writable fields printable.2.2⟩

end

mutual

theorem text_json_value_eq (out : Bytes) : ∀ value : Jval, textJsonValue out value = some (out ++ written value)
  | .null => rfl
  | .bool boolean => rfl
  | .num num => rfl
  | .str str => by
    rw [textJsonValue, text_json_string_eq, written]
    simp
  | .arr kids => by
    rw [textJsonValue, text_json_kids_eq, written]
    simp
  | .obj fields => by
    rw [textJsonValue, text_json_fields_eq, written]
    simp

theorem text_json_kids_eq (first : Bool) (out : Bytes) :
    ∀ kids : List Jval, textJsonKids first out kids = some (out ++ writtenKids first kids)
  | [] => by simp [textJsonKids, writtenKids]
  | kid :: kids => by
    rw [textJsonKids, text_json_value_eq, Option.bind_some, text_json_kids_eq, writtenKids]
    cases first <;> simp

theorem text_json_fields_eq (first : Bool) (out : Bytes) :
    ∀ fields : List (Bytes × Jval), textJsonFields first out fields = some (out ++ writtenFields first fields)
  | [] => by simp [textJsonFields, writtenFields]
  | (key, kid) :: fields => by
    rw [textJsonFields, text_json_string_eq, Option.bind_some, text_json_value_eq, Option.bind_some,
      text_json_fields_eq, writtenFields]
    cases first <;> simp

end

def Closed (rest : Bytes) : Prop :=
  ∀ c ∈ rest.head?, c = 0x2c ∨ c = 0x5d ∨ c = 0x7d

theorem closed_stop (closed : Closed rest) : FloatText.Stop rest := by
  intro c inside
  rcases closed c inside with rfl | rfl | rfl <;> decide

theorem number_head (finite : Finite num) : ∃ c t, format num = c :: t ∧ (isDigit c = true ∨ c = 0x2d) := by
  obtain ⟨negative, magnitude, rfl⟩ := finite
  have reads := @format_reads magnitude [] seventeen_rounds fun c inside => by cases inside
  rw [List.append_nil] at reads
  cases shape : formatMagnitude magnitude.units with
  | nil =>
    have some_ := reads.some_
    rw [shape] at some_
    exact absurd rfl some_
  | cons c t =>
    cases negative with
    | true => exact ⟨0x2d, c :: t, by rw [format, if_pos rfl, shape], .inr rfl⟩
    | false =>
      refine ⟨c, t, by rw [format, if_neg (by simp), shape], .inl (reads.first c ?_)⟩
      rw [shape]
      rfl

theorem written_head (value : Jval) : ∃ c t, written value = c :: t ∧ isSpace c = false ∧ c ≠ 0x5d := by
  cases value with
  | null => exact ⟨0x6e, utf8 "ull", by decide, by decide, by decide⟩
  | bool boolean =>
    cases boolean with
    | true => exact ⟨0x74, utf8 "rue", by decide, by decide, by decide⟩
    | false => exact ⟨0x66, utf8 "alse", by decide, by decide, by decide⟩
  | num num =>
    cases num with
    | nan => exact ⟨0x6e, utf8 "an", by decide, by decide, by decide⟩
    | inf negative =>
      cases negative with
      | true => exact ⟨0x2d, utf8 "inf", by decide, by decide, by decide⟩
      | false => exact ⟨0x69, utf8 "nf", by decide, by decide, by decide⟩
    | finite negative magnitude =>
      obtain ⟨c, t, shape, kind⟩ := number_head ⟨negative, magnitude, rfl⟩
      refine ⟨c, t, shape, ?_, ?_⟩
      · rcases kind with digit | rfl
        · exact (digit_not_space digit).1
        · decide
      · rintro rfl
        exact absurd kind (by decide)
  | str str => exact ⟨0x22, _, rfl, by decide, by decide⟩
  | arr kids => exact ⟨0x5b, _, rfl, by decide, by decide⟩
  | obj fields => exact ⟨0x7b, _, rfl, by decide, by decide⟩

theorem ws_cons (plain : isSpace c = false) (t : Bytes) : jWs (c :: t) = c :: t := by
  rw [jWs, List.dropWhile_cons, plain, if_neg (by simp)]

theorem delimiter_comma (close : UInt8) (t : Bytes) : delimiter close (0x2c :: t) = (true, t) := by
  rw [delimiter, ws_cons (by decide)]
  exact if_pos rfl

theorem delimiter_close {close : UInt8} (t : Bytes) (plain : isSpace close = false) (other : close ≠ 0x2c) :
    delimiter close (close :: t) = (false, t) := by
  rw [delimiter, ws_cons plain, List.head?_cons, if_neg (by simpa using other)]
  exact if_pos rfl

theorem written_kids_more (kid : Jval) (kids : List Jval) :
    writtenKids false (kid :: kids) = 0x2c :: writtenKids true (kid :: kids) := by
  simp [writtenKids]

theorem written_fields_more (field : Bytes × Jval) (fields : List (Bytes × Jval)) :
    writtenFields false (field :: fields) = 0x2c :: writtenFields true (field :: fields) := by
  obtain ⟨key, kid⟩ := field
  simp [writtenFields]

variable {fuel : Nat}

theorem parse_val_head (t : Bytes) (plain : isSpace c = false) : jParseVal (fuel + 1) (c :: t) =
      if c = 0x22 then (jParseStrRaw (c :: t)).map fun (text, s) => (.str text, s) else if c = 0x7b then
        if (jWs t).head? = some 0x7d then .ok (.obj [], (jWs t).drop 1)
        else (jParseFields fuel (jWs t)).map fun (fields, s) => (.obj fields, s) else if c = 0x5b then
        if (jWs t).head? = some 0x5d then .ok (.arr [], (jWs t).drop 1)
        else (jParseKids fuel (jWs t)).map fun (kids, s) => (.arr kids, s)
      else if c = 0x74 then literal 4 (.bool true) (c :: t) else if c = 0x66 then literal 5 (.bool false) (c :: t)
      else if c = 0x6e then literal 4 .null (c :: t) else .ok (.num (strtod (c :: t)).1, (strtod (c :: t)).2) := by
  rw [jParseVal, ws_cons plain]
  rfl

theorem parse_string {str : Bytes} (rest : Bytes) (string : StringText str) :
    jParseVal (fuel + 1) (0x22 :: escaped str ++ 0x22 :: rest) = .ok (.str str, rest) := by
  rw [List.cons_append, parse_val_head _ (by decide), if_pos rfl, ← List.cons_append, str_raw_escaped rest string]
  rfl

theorem parse_null {fuel : Nat} (rest : Bytes) : jParseVal (fuel + 1) (written .null ++ rest) = .ok (.null, rest) := by
  have letters : utf8 "null" = [0x6e, 0x75, 0x6c, 0x6c] := by decide
  rw [written, letters, List.cons_append, parse_val_head _ (by decide), if_neg (by decide), if_neg (by decide),
    if_neg (by decide), if_neg (by decide), if_neg (by decide), if_pos rfl, literal, advance, if_pos (by simp)]
  rfl

theorem parse_bool (boolean : Bool) (rest : Bytes) :
    jParseVal (fuel + 1) (written (.bool boolean) ++ rest) = .ok (.bool boolean, rest) := by
  have yes : utf8 "true" = [0x74, 0x72, 0x75, 0x65] := by decide
  have no : utf8 "false" = [0x66, 0x61, 0x6c, 0x73, 0x65] := by decide
  cases boolean with
  | true =>
    rw [written, if_pos rfl, yes, List.cons_append, parse_val_head _ (by decide), if_neg (by decide),
      if_neg (by decide), if_neg (by decide), if_pos rfl, literal, advance, if_pos (by simp)]
    rfl
  | false =>
    rw [written, if_neg (by simp), no, List.cons_append, parse_val_head _ (by decide), if_neg (by decide),
      if_neg (by decide), if_neg (by decide), if_neg (by decide), if_pos rfl, literal, advance, if_pos (by simp)]
    rfl

theorem numeral_head {c : UInt8} (kind : isDigit c = true ∨ c = 0x2d) :
    isSpace c = false ∧ ∀ d : UInt8, isDigit d = false ∧ d ≠ 0x2d → c ≠ d := by
  refine ⟨?_, ?_⟩
  · rcases kind with digit | rfl
    · exact (digit_not_space digit).1
    · decide
  · rintro d ⟨letter, sign⟩ rfl
    rcases kind with digit | minus
    · rw [digit] at letter
      cases letter
    · exact sign minus

theorem parse_numeral {c : UInt8} {t : Bytes} (kind : isDigit c = true ∨ c = 0x2d)
    (read : strtod (c :: t) = (num, rest)) : jParseVal (fuel + 1) (c :: t) = .ok (.num num, rest) := by
  obtain ⟨plain, other⟩ := numeral_head kind
  rw [parse_val_head _ plain, if_neg (other _ (by decide)), if_neg (other _ (by decide)), if_neg (other _ (by decide)),
    if_neg (other _ (by decide)), if_neg (other _ (by decide)), if_neg (other _ (by decide)), read]

theorem parse_number (finite : Finite num) (closed : Closed rest) :
    jParseVal (fuel + 1) (format num ++ rest) = .ok (.num num, rest) := by
  obtain ⟨c, t, shape, kind⟩ := number_head finite
  obtain ⟨negative, magnitude, rfl⟩ := finite
  have read := strtod_format negative magnitude (closed_stop closed)
  rw [shape, List.cons_append] at read ⊢
  exact parse_numeral kind read

theorem parse_arr {kids : List Jval} (first : ∀ c ∈ t.head?, isSpace c = false ∧ c ≠ 0x5d)
    (inner : jParseKids fuel t = .ok (kids, rest)) : jParseVal (fuel + 1) (0x5b :: t) = .ok (.arr kids, rest) := by
  have same : jWs t = t := by
    cases t with
    | nil => rfl
    | cons c t => exact ws_cons (first c rfl).1 t
  have open_ : t.head? ≠ some 0x5d := fun close => (first _ close).2 rfl
  rw [parse_val_head _ (by decide), if_neg (by decide), if_neg (by decide), if_pos rfl, same, if_neg open_, inner]
  rfl

theorem parse_obj {fields : List (Bytes × Jval)} (inner : jParseFields fuel (0x22 :: t) = .ok (fields, rest)) :
    jParseVal (fuel + 1) (0x7b :: 0x22 :: t) = .ok (.obj fields, rest) := by
  rw [parse_val_head _ (by decide), if_neg (by decide), if_pos rfl, ws_cons (by decide), List.head?_cons, if_neg (by decide), inner]
  rfl

theorem parse_kids_step {kid : Jval} (inner : jParseVal fuel s = .ok (kid, t)) : jParseKids (fuel + 1) s =
      if (delimiter 0x5d t).1 = true then (jParseKids fuel (delimiter 0x5d t).2).map fun (kids, s) => (kid :: kids, s)
      else .ok ([kid], (delimiter 0x5d t).2) := by
  rw [jParseKids, inner]
  rfl

theorem colon_cons : colon (0x3a :: t) = t := by
  rw [colon, ws_cons (by decide)]
  exact if_pos rfl

theorem parse_fields_step {key : Bytes} {kid : Jval} (string : StringText key) (inner : jParseVal fuel s = .ok (kid, t)) :
    jParseFields (fuel + 1) (0x22 :: escaped key ++ 0x22 :: 0x3a :: s) = if (delimiter 0x7d t).1 = true then
        (jParseFields fuel (delimiter 0x7d t).2).map fun (fields, s) => ((key, kid) :: fields, s)
      else .ok ([(key, kid)], (delimiter 0x7d t).2) := by
  rw [jParseFields, List.cons_append, ws_cons (by decide), ← List.cons_append, str_raw_escaped _ string]
  change ((jParseVal fuel (colon (0x3a :: s))).bind _) = _
  rw [colon_cons, inner]
  rfl

theorem closed_cons (mark : c = 0x2c ∨ c = 0x5d ∨ c = 0x7d) (t : Bytes) : Closed (c :: t) := by
  intro d inside
  cases inside
  exact mark

mutual

theorem parse_written : ∀ (value : Jval) (fuel : Nat) (rest : Bytes), Writable value → Closed rest →
    2 * (written value ++ rest).length + 2 ≤ fuel → jParseVal fuel (written value ++ rest) = .ok (value, rest)
  | value, 0, rest, _, _, enough => absurd enough (by omega)
  | .null, fuel + 1, rest, _, _, _ => parse_null rest
  | .bool boolean, fuel + 1, rest, _, _, _ => parse_bool boolean rest
  | .num num, fuel + 1, rest, writable, closed, _ => parse_number writable closed
  | .str str, fuel + 1, rest, writable, _, _ => by
    rw [written, List.append_assoc]
    exact parse_string rest writable
  | .arr [], fuel + 1, rest, _, _, _ => rfl
  | .arr (kid :: kids), fuel + 1, rest, writable, _, enough => by
    have size : (written (.arr (kid :: kids)) ++ rest).length =
        (writtenKids true (kid :: kids) ++ 0x5d :: rest).length + 1 := by
      simp [written]
    have inner := parse_written_kids kid kids fuel rest writable (by omega)
    rw [written, List.append_assoc]
    refine parse_arr ?_ inner
    obtain ⟨c, t, shape, plain, open_⟩ := written_head kid
    intro d inside
    rw [writtenKids, shape] at inside
    cases inside
    exact ⟨plain, open_⟩
  | .obj [], fuel + 1, rest, _, _, _ => rfl
  | .obj ((key, kid) :: fields), fuel + 1, rest, writable, _, enough => by
    have size : (written (.obj ((key, kid) :: fields)) ++ rest).length =
        (writtenFields true ((key, kid) :: fields) ++ 0x7d :: rest).length + 1 := by
      simp [written]
    have inner := parse_written_fields key kid fields fuel rest writable (by omega)
    rw [written, List.append_assoc]
    exact parse_obj inner

theorem parse_written_kids : ∀ (kid : Jval) (kids : List Jval) (fuel : Nat) (rest : Bytes),
    WritableKids (kid :: kids) → 2 * (writtenKids true (kid :: kids) ++ 0x5d :: rest).length + 3 ≤ fuel →
      jParseKids fuel (writtenKids true (kid :: kids) ++ 0x5d :: rest) = .ok (kid :: kids, rest)
  | kid, kids, 0, rest, _, enough => absurd enough (by omega)
  | kid, [], fuel + 1, rest, writable, enough => by
    have shape : writtenKids true [kid] ++ 0x5d :: rest = written kid ++ 0x5d :: rest := by simp [writtenKids]
    rw [shape] at enough ⊢
    have inner := parse_written kid fuel (0x5d :: rest) writable.1 (closed_cons (by decide) rest) (by omega)
    rw [parse_kids_step inner, delimiter_close rest (by decide) (by decide)]
    rfl
  | kid, next :: kids, fuel + 1, rest, writable, enough => by
    have shape : writtenKids true (kid :: next :: kids) ++ 0x5d :: rest =
        written kid ++ 0x2c :: (writtenKids true (next :: kids) ++ 0x5d :: rest) := by
      rw [writtenKids, written_kids_more]
      simp
    rw [shape] at enough ⊢
    have inner := parse_written kid fuel _ writable.1
      (closed_cons (c := 0x2c) (by decide) (writtenKids true (next :: kids) ++ 0x5d :: rest)) (by omega)
    have later := parse_written_kids next kids fuel rest writable.2 (by
      rw [List.length_append, List.length_cons] at enough
      omega)
    rw [parse_kids_step inner, delimiter_comma, if_pos rfl, later]
    rfl

theorem parse_written_fields : ∀ (key : Bytes) (kid : Jval) (fields : List (Bytes × Jval)) (fuel : Nat) (rest : Bytes),
    WritableFields ((key, kid) :: fields) →
      2 * (writtenFields true ((key, kid) :: fields) ++ 0x7d :: rest).length + 3 ≤ fuel →
      jParseFields fuel (writtenFields true ((key, kid) :: fields) ++ 0x7d :: rest) = .ok ((key, kid) :: fields, rest)
  | key, kid, fields, 0, rest, _, enough => absurd enough (by omega)
  | key, kid, [], fuel + 1, rest, writable, enough => by
    have shape : writtenFields true [(key, kid)] ++ 0x7d :: rest =
        0x22 :: escaped key ++ 0x22 :: 0x3a :: (written kid ++ 0x7d :: rest) := by simp [writtenFields]
    rw [shape] at enough ⊢
    have inner := parse_written kid fuel (0x7d :: rest) writable.2.1 (closed_cons (by decide) rest) (by
      simp only [List.length_append, List.length_cons] at enough ⊢
      omega)
    rw [parse_fields_step writable.1 inner, delimiter_close rest (by decide) (by decide)]
    rfl
  | key, kid, (name, next) :: fields, fuel + 1, rest, writable, enough => by
    have shape : writtenFields true ((key, kid) :: (name, next) :: fields) ++ 0x7d :: rest =
        0x22 :: escaped key ++ 0x22 :: 0x3a ::
          (written kid ++ 0x2c :: (writtenFields true ((name, next) :: fields) ++ 0x7d :: rest)) := by
      rw [writtenFields, written_fields_more]
      simp
    rw [shape] at enough ⊢
    have inner := parse_written kid fuel _ writable.2.1
      (closed_cons (c := 0x2c) (by decide) (writtenFields true ((name, next) :: fields) ++ 0x7d :: rest)) (by
        simp only [List.length_append, List.length_cons] at enough ⊢
        omega)
    have later := parse_written_fields name next fields fuel rest writable.2.2 (by
      simp only [List.length_append, List.length_cons] at enough ⊢
      omega)
    rw [parse_fields_step writable.1 inner, delimiter_comma, if_pos rfl, later]
    rfl

end

def Visible (text : Bytes) : Prop :=
  ∀ c ∈ text, 0x20 ≤ c.toNat

instance (text : Bytes) : Decidable (Visible text) :=
  inferInstanceAs (Decidable (∀ c ∈ text, 0x20 ≤ c.toNat))

theorem visible_append {first second : Bytes} : Visible (first ++ second) ↔ Visible first ∧ Visible second :=
  List.forall_mem_append

theorem visible_cons : Visible (c :: text) ↔ 0x20 ≤ c.toNat ∧ Visible text :=
  List.forall_mem_cons

theorem escape_part_visible (c : UInt8) (rest : Bytes) : Visible (escapePart c rest).1 := by
  have digits : ∀ c : UInt8, c < 0x20 → Visible [hexDigit (c >>> 4), hexDigit (c &&& 15)] :=
    every_byte (by decide +kernel)
  have letters : Visible (utf8 "\\n") ∧ Visible (utf8 "\\r") ∧ Visible (utf8 "\\t") ∧ Visible (utf8 "\\u00") := by
    decide +kernel
  unfold escapePart
  split_ifs with quote lf cr ht control ascii wide
  · rcases quote with rfl | rfl <;> decide +kernel
  · exact letters.1
  · exact letters.2.1
  · exact letters.2.2.1
  · exact visible_append.mpr ⟨letters.2.2.2, digits c control⟩
  · intro d inside
    rw [List.mem_singleton.mp inside]
    exact UInt8.le_iff_toNat_le.mp (UInt8.not_lt.mp control)
  · intro d inside
    cases decoded : decodeOne (c :: rest) with
    | none =>
      rw [scan_width_eq, decoded] at wide
      exact absurd rfl wide
    | some pair =>
      obtain ⟨code, width⟩ := pair
      rw [scan_width_decoded decoded] at inside
      exact (by decide : 0x20 ≤ 0x80).trans (decoded_wide ascii decoded inside)
  · decide +kernel

theorem escaped_from_visible (fuel : Nat) : ∀ text : Bytes, Visible (escapedFrom fuel text) := by
  induction fuel with
  | zero => exact fun text c inside => by cases inside
  | succ fuel ih =>
    intro text
    cases text with
    | nil => exact fun c inside => by cases inside
    | cons c rest => exact visible_append.mpr ⟨escape_part_visible c rest, ih _⟩

theorem digits_visible {digits : Bytes} (all : ∀ c ∈ digits, isDigit c = true ∨ c = 0x2e) : Visible digits := by
  intro c inside
  rcases all c inside with digit | rfl
  · have := (is_digit_iff c).mp digit
    omega
  · decide

theorem decimal_int_visible (n : Int) : Visible (decimalInt n) := by
  intro c inside
  rcases decimal_int_bytes inside with rfl | digit
  · decide
  · have := (is_digit_iff c).mp digit
    omega

theorem quoted_visible (text : Bytes) : Visible (0x22 :: escaped text ++ [0x22]) :=
  visible_append.mpr ⟨visible_cons.mpr ⟨by decide, escaped_from_visible _ text⟩, by decide⟩

theorem format_visible (num : Double) : Visible (format num) := by
  have words : Visible (utf8 "nan") ∧ Visible (utf8 "inf") ∧ Visible (utf8 "-inf") := by
    decide
  have exponent_ : ∀ x : Int, Visible (formatExponent x) := by
    intro x
    refine visible_cons.mpr ⟨by decide, visible_cons.mpr ⟨by split_ifs <;> decide, digits_visible fun c inside => ?_⟩⟩
    split_ifs at inside
    · exact .inl ((List.mem_cons.mp inside).elim (fun zero_ => by rw [zero_]; rfl) decimal_digits)
    · exact .inl (decimal_digits inside)
  have magnitude_ : ∀ units : Nat, Visible (formatMagnitude units) := by
    intro units
    unfold formatMagnitude formatDigits
    have all : ∀ c ∈ strip (decimal (seventeen units).1), isDigit c = true := fun c => strip_digits
    split_ifs
    · exact digits_visible (fun c inside => .inl (by rw [List.mem_singleton.mp inside]; rfl))
    · exact visible_append.mpr ⟨digits_visible fun c inside => pointed_bytes all inside, exponent_ _⟩
    · refine visible_append.mpr ⟨visible_cons.mpr ⟨by decide, visible_cons.mpr ⟨by decide, ?_⟩⟩, ?_⟩
      · exact digits_visible fun c inside => .inl (zeros_digits inside)
      · exact digits_visible fun c inside => .inl (all c inside)
    · exact digits_visible fun c inside => pointed_bytes all inside
  cases num with
  | nan => exact words.1
  | inf negative =>
    cases negative with
    | true => exact words.2.2
    | false => exact words.2.1
  | finite negative magnitude =>
    unfold format
    dsimp only
    split_ifs
    · exact visible_cons.mpr ⟨by decide, magnitude_ _⟩
    · exact magnitude_ _

mutual

theorem written_visible : ∀ value : Jval, Visible (written value)
  | .null => by decide
  | .bool boolean => by cases boolean <;> decide
  | .num num => format_visible num
  | .str str => quoted_visible str
  | .arr kids =>
    visible_append.mpr ⟨visible_cons.mpr ⟨by decide, written_kids_visible true kids⟩, by decide⟩
  | .obj fields =>
    visible_append.mpr ⟨visible_cons.mpr ⟨by decide, written_fields_visible true fields⟩, by decide⟩

theorem written_kids_visible (first : Bool) : ∀ kids : List Jval, Visible (writtenKids first kids)
  | [] => by
    intro c inside
    cases inside
  | kid :: kids => by
    refine visible_append.mpr ⟨?_, visible_append.mpr ⟨written_visible kid, written_kids_visible false kids⟩⟩
    cases first <;> decide

theorem written_fields_visible (first : Bool) : ∀ fields : List (Bytes × Jval), Visible (writtenFields first fields)
  | [] => by
    intro c inside
    cases inside
  | (key, kid) :: fields => by
    refine visible_append.mpr ⟨?_, visible_append.mpr ⟨visible_cons.mpr ⟨by decide, escaped_from_visible _ key⟩, ?_⟩⟩
    · cases first <;> decide
    · exact visible_cons.mpr ⟨by decide, visible_cons.mpr ⟨by decide,
        visible_append.mpr ⟨written_visible kid, written_fields_visible false fields⟩⟩⟩

end

theorem visible_text (visible : Visible text) : (0 : UInt8) ∉ text := by
  intro inside
  exact absurd (visible 0 inside) (by decide)

theorem parse_text (value : Jval) (writable : Writable value) : jsonParse (written value) = .ok (value, []) := by
  have whole : cstr (written value) = written value := cstr_self (visible_text (written_visible value))
  have closed : Closed [] := fun c inside => by cases inside
  have parsed := parse_written value (fuelFor (written value)) [] writable closed (by simp [fuelFor])
  rw [List.append_nil] at parsed
  rw [jsonParse, whole, parsed]

-- What is written of a printable tree is parsed into that tree, and no string is too long for its buffer.
theorem json_round_trip :
    (∀ value, Printable value → ∃ text, textJsonValue [] value = some text ∧ jsonParse text = .ok (value, [])) ∧
      ∀ buffer str, ∃ text, textJsonString buffer str = some (buffer ++ text) := by
  refine ⟨fun value printable => ⟨written value, text_json_value_eq [] value, parse_text value (printable_writable value printable)⟩, ?_⟩
  intro buffer str
  exact ⟨0x22 :: escaped str ++ [0x22], by rw [text_json_string_eq, List.append_assoc]⟩

theorem json_round_trip_small :
    ∃ text, textJsonValue [] (.arr [.num (integer true 42 (by decide)), .str (utf8 "a\n\"")]) = some text ∧
      jsonParse text = .ok (.arr [.num (integer true 42 (by decide)), .str (utf8 "a\n\"")], []) :=
  json_round_trip.1 (.arr [.num (integer true 42 (by decide)), .str (utf8 "a\n\"")])
    ⟨integer_printable true (by decide), ⟨⟨[0x61, 0x0a, 0x22], by decide, by decide⟩, by decide⟩, trivial⟩

end SamosaChat.Json
