import SamosaChat.Json.RoundTrip
import SamosaChat.Lib.FixedText
import SamosaChat.Lib.Utf8Repair

set_option autoImplicit false

namespace SamosaChat.Json

open Utf8 Text Binary64 Decimal FloatText

-- Texts that are put together by hand, piece by piece.

def quoted (value : Bytes) : Bytes :=
  (textJsonString [] value).getD []

def commas : List Bytes → Bytes
  | [] => []
  | [text] => text
  | text :: next :: texts => text ++ 0x2c :: commas (next :: texts)

def member (key : String) (text : Bytes) : Bytes :=
  quoted (utf8 key) ++ 0x3a :: text

def array (texts : List Bytes) : Bytes :=
  0x5b :: commas texts ++ [0x5d]

def object (members : List Bytes) : Bytes :=
  0x7b :: commas members ++ [0x7d]

structure Reads (depth : Nat) (text : Bytes) (value : Jval) : Prop where
  head : ∃ c t, text = c :: t ∧ isSpace c = false ∧ c ≠ 0x5d
  parsed : ∀ fuel rest, depth < fuel → Closed rest → jParseVal fuel (text ++ rest) = .ok (value, rest)

theorem quoted_eq (value : Bytes) : quoted value = 0x22 :: escaped value ++ [0x22] := by
  rw [quoted, text_json_string_eq]
  rfl

theorem quoted_length (value : Bytes) : (quoted value).length ≤ 6 * value.length + 2 := by
  have most := escaped_length value.length value
  rw [quoted_eq, List.length_append, List.length_cons, List.length_singleton]
  exact Nat.succ_le_succ (Nat.succ_le_succ most)

theorem literal_text {text : String} (noNul : (0 : UInt8) ∉ utf8 text) : StringText (utf8 text) := by
  refine ⟨⟨text.toList.map Char.toNat, ?_, rfl⟩, noNul⟩
  intro code inside
  obtain ⟨c, _, rfl⟩ := List.mem_map.mp inside
  rcases c.valid with low | high
  · exact .inl low
  · exact .inr ⟨high.1, high.2⟩

theorem reads_deeper {depth depth' : Nat} {text : Bytes} {value : Jval} (reads : Reads depth text value)
    (more : depth ≤ depth') : Reads depth' text value where
  head := reads.head
  parsed := fun fuel rest enough closed => reads.parsed fuel rest (by omega) closed

theorem reads_quoted {str : Bytes} (string : StringText str) : Reads 0 (quoted str) (.str str) := by
  rw [quoted_eq]
  refine ⟨⟨0x22, _, rfl, by decide, by decide⟩, ?_⟩
  intro fuel rest enough closed
  obtain ⟨fuel, rfl⟩ := Nat.exists_eq_add_of_lt enough
  rw [List.append_assoc]
  exact parse_string rest string

theorem malformed_part {c : UInt8} {text : Bytes} (decoded : decodeOne (c :: text) = none) :
    escapePart c text = (replacementCharacter, 1) := by
  have wide : ¬c < 0x80 := by
    intro small
    rw [decode_one_ascii ((first_range c).1.mp small)] at decoded
    cases decoded
  have bad : ¬scanWidth (c :: text) ≠ 0 := by
    rw [scan_width_eq, decoded]
    exact fun other => other rfl
  unfold escapePart
  rw [if_neg, if_neg, if_neg, if_neg, if_neg, if_neg wide, if_neg bad]
  · rfl
  · exact fun control => wide (UInt8.lt_trans control (by decide))
  · rintro rfl
    exact wide (by decide)
  · rintro rfl
    exact wide (by decide)
  · rintro rfl
    exact wide (by decide)
  · rintro (rfl | rfl)
    · exact wide (by decide)
    · exact wide (by decide)

theorem decodes_malformed {c : UInt8} {text s bytes rest : Bytes} (decoded : decodeOne (c :: text) = none)
    (later : Decodes s bytes rest) :
    Decodes ((escapePart c text).1 ++ s) (replacementCharacter ++ bytes) rest ∧ (escapePart c text).2 = 1 := by
  rw [malformed_part decoded]
  exact ⟨decodes_plain (by decide) later, rfl⟩

theorem decodes_lossy (fuel : Nat) :
    ∀ text rest : Bytes, text.length ≤ fuel → Decodes (escapedFrom fuel text ++ 0x22 :: rest) (lossy text) rest := by
  induction fuel with
  | zero =>
    intro text rest enough
    rw [List.length_eq_zero_iff.mp (Nat.le_zero.mp enough)]
    exact decodes_quote rest
  | succ fuel ih =>
    intro text rest enough
    cases text with
    | nil => exact decodes_quote rest
    | cons c text =>
      rw [List.length_cons] at enough
      rw [escapedFrom, List.append_assoc]
      cases decoded : decodeOne (c :: text) with
      | none =>
        obtain ⟨decodes, same⟩ := decodes_malformed decoded (ih text rest (by omega))
        rw [same, List.drop_one, List.tail_cons, lossy_none decoded]
        exact decodes
      | some pair =>
        obtain ⟨code, width⟩ := pair
        have bound := decode_one_width decoded
        obtain ⟨decodes, same⟩ := decodes_part decoded
          (ih ((c :: text).drop width) rest (by rw [List.length_drop, List.length_cons]; omega))
        rw [same] at decodes
        rw [same, lossy_some decoded]
        exact decodes

theorem str_raw_lossy (str rest : Bytes) : jParseStrRaw (0x22 :: escaped str ++ 0x22 :: rest) = .ok (cstr (lossy str), rest) := by
  have loop : Decodes (escaped str ++ 0x22 :: rest) (lossy str) rest := decodes_lossy str.length str rest (Nat.le_refl _)
  unfold jParseStrRaw advance
  rw [if_pos (by simp)]
  change ((stringLoop ((escaped str ++ 0x22 :: rest).length + 1) (escaped str ++ 0x22 :: rest)).bind fun out =>
    .ok (cstr out.1, out.2)) = _
  rw [loop _ (Nat.lt_succ_self _)]
  rfl

theorem reads_lossy (str : Bytes) : Reads 0 (quoted str) (.str (cstr (lossy str))) := by
  rw [quoted_eq]
  refine ⟨⟨0x22, _, rfl, by decide, by decide⟩, ?_⟩
  intro fuel rest enough closed
  obtain ⟨fuel, rfl⟩ := Nat.exists_eq_add_of_lt enough
  rw [List.append_assoc, List.singleton_append, List.cons_append, parse_val_head _ (by decide), if_pos rfl,
    ← List.cons_append, str_raw_lossy]
  rfl

theorem reads_number {text : Bytes} {num : Double} (head : ∃ c t, text = c :: t ∧ (isDigit c = true ∨ c = 0x2d))
    (read : ∀ rest, FloatText.Stop rest → strtod (text ++ rest) = (num, rest)) : Reads 0 text (.num num) := by
  obtain ⟨c, t, rfl, kind⟩ := head
  obtain ⟨plain, other⟩ := numeral_head kind
  refine ⟨⟨c, t, rfl, plain, other _ (by decide)⟩, ?_⟩
  intro fuel rest enough closed
  obtain ⟨fuel, rfl⟩ := Nat.exists_eq_add_of_lt enough
  exact parse_numeral kind (read rest (closed_stop closed))

theorem reads_decimal (n : Nat) : Reads 0 (decimal n) (.num (ofScaled false 10 n 0)) := by
  obtain ⟨c, digits, shape, first⟩ := decimal_head n
  exact reads_number ⟨c, digits, shape, .inl first⟩ fun rest stop => strtod_decimal stop

theorem reads_fixed (negative : Bool) (magnitude : Magnitude) :
    Reads 0 (fixedNine (.finite negative magnitude)) (.num (throughNine (.finite negative magnitude))) := by
  obtain ⟨c, digits, shape, first⟩ := decimal_head (nanos magnitude / 10 ^ 9)
  refine reads_number ?_ fun rest stop => strtod_fixed negative stop
  cases negative with
  | true => exact ⟨0x2d, _, rfl, .inr rfl⟩
  | false =>
    refine ⟨c, digits ++ 0x2e :: nineDigits (nanos magnitude % 10 ^ 9), ?_, .inl first⟩
    rw [fixedNine, if_neg Bool.false_ne_true, fixedMagnitude, shape, List.cons_append]

section Lists

variable {α : Type} {depth : Nat} {text : α → Bytes} {value : α → Jval} {key : α → String}

theorem commas_head {texts : List Bytes} {c : UInt8} {t : Bytes} (front : texts.head? = some (c :: t)) :
    ∃ s, commas texts = c :: s := by
  cases texts with
  | nil => cases front
  | cons first rest =>
    cases front
    cases rest with
    | nil => exact ⟨t, rfl⟩
    | cons next rest => exact ⟨_, rfl⟩

theorem kids_read (item : α) (items : List α) (rest : Bytes) (reads : ∀ a ∈ item :: items, Reads depth (text a) (value a))
    (fuel : Nat) (enough : depth + items.length + 1 < fuel) :
    jParseKids fuel (commas ((item :: items).map text) ++ 0x5d :: rest) = .ok ((item :: items).map value, rest) := by
  induction items generalizing item fuel with
  | nil =>
    obtain ⟨fuel, rfl⟩ := Nat.exists_eq_add_of_lt (Nat.zero_lt_of_lt enough)
    have inner := (reads item (by simp)).parsed (0 + fuel) (0x5d :: rest) (by simp at enough; omega)
      (closed_cons (by decide) rest)
    rw [List.map_singleton, commas, parse_kids_step inner, delimiter_close rest (by decide) (by decide)]
    rfl
  | cons next items ih =>
    obtain ⟨fuel, rfl⟩ := Nat.exists_eq_add_of_lt (Nat.zero_lt_of_lt enough)
    rw [List.length_cons] at enough
    have later := ih next (fun a inside => reads a (List.mem_cons_of_mem _ inside)) (0 + fuel) (by omega)
    have inner := (reads item (by simp)).parsed (0 + fuel)
      (0x2c :: (commas ((next :: items).map text) ++ 0x5d :: rest)) (by omega) (closed_cons (by decide) _)
    rw [List.map_cons, List.map_cons, commas, List.append_assoc, List.cons_append, ← List.map_cons,
      parse_kids_step inner, delimiter_comma, if_pos rfl, later]
    rfl

theorem reads_array (items : List α) (reads : ∀ a ∈ items, Reads depth (text a) (value a)) :
    Reads (depth + items.length + 2) (array (items.map text)) (.arr (items.map value)) := by
  refine ⟨⟨0x5b, _, rfl, by decide, by decide⟩, ?_⟩
  intro fuel rest enough closed
  obtain ⟨fuel, rfl⟩ := Nat.exists_eq_add_of_lt (Nat.zero_lt_of_lt enough)
  rw [array, List.cons_append, List.cons_append, List.append_assoc, List.singleton_append]
  cases items with
  | nil =>
    rw [parse_val_head _ (by decide)]
    rfl
  | cons item items =>
    obtain ⟨c, t, shape, plain, open_⟩ := (reads item (by simp)).head
    obtain ⟨s, front⟩ : ∃ s, commas ((item :: items).map text) = c :: s := by
      apply commas_head
      rw [List.map_cons, List.head?_cons, shape]
    have inner := kids_read item items rest reads (0 + fuel) (by simp at enough; omega)
    rw [front, List.cons_append] at inner ⊢
    apply parse_arr ?_ inner
    intro d inside
    cases inside
    exact ⟨plain, open_⟩

theorem fields_read (item : α) (items : List α) (rest : Bytes) (keys : ∀ a ∈ item :: items, StringText (utf8 (key a)))
    (reads : ∀ a ∈ item :: items, Reads depth (text a) (value a)) (fuel : Nat) (enough : depth + items.length + 1 < fuel) :
    jParseFields fuel (commas ((item :: items).map fun a => member (key a) (text a)) ++ 0x7d :: rest) =
      .ok ((item :: items).map fun a => (utf8 (key a), value a), rest) := by
  induction items generalizing item fuel with
  | nil =>
    obtain ⟨fuel, rfl⟩ := Nat.exists_eq_add_of_lt (Nat.zero_lt_of_lt enough)
    have inner := (reads item (by simp)).parsed (0 + fuel) (0x7d :: rest) (by simp at enough; omega)
      (closed_cons (by decide) rest)
    have shape : commas ([item].map fun a => member (key a) (text a)) ++ 0x7d :: rest =
        0x22 :: escaped (utf8 (key item)) ++ 0x22 :: 0x3a :: (text item ++ 0x7d :: rest) := by
      simp [commas, member, quoted_eq]
    rw [shape, parse_fields_step (keys item (by simp)) inner, delimiter_close rest (by decide) (by decide)]
    rfl
  | cons next items ih =>
    obtain ⟨fuel, rfl⟩ := Nat.exists_eq_add_of_lt (Nat.zero_lt_of_lt enough)
    rw [List.length_cons] at enough
    have later := ih next (fun a inside => keys a (List.mem_cons_of_mem _ inside))
      (fun a inside => reads a (List.mem_cons_of_mem _ inside)) (0 + fuel) (by omega)
    have inner := (reads item (by simp)).parsed (0 + fuel)
      (0x2c :: (commas ((next :: items).map fun a => member (key a) (text a)) ++ 0x7d :: rest)) (by omega)
      (closed_cons (by decide) _)
    have shape : commas ((item :: next :: items).map fun a => member (key a) (text a)) ++ 0x7d :: rest =
        0x22 :: escaped (utf8 (key item)) ++ 0x22 :: 0x3a ::
          (text item ++ 0x2c :: (commas ((next :: items).map fun a => member (key a) (text a)) ++ 0x7d :: rest)) := by
      simp [commas, member, quoted_eq]
    rw [shape, parse_fields_step (keys item (by simp)) inner, delimiter_comma, if_pos rfl, later]
    rfl

theorem fields_then {k : Nat} {tail r : Bytes} {fields : List (Bytes × Jval)} (items : List α)
    (keys : ∀ a ∈ items, StringText (utf8 (key a))) (reads : ∀ a ∈ items, Reads depth (text a) (value a))
    (later : ∀ fuel, k < fuel → jParseFields fuel tail = .ok (fields, r)) (fuel : Nat) (enough : depth + items.length + k < fuel) :
    jParseFields fuel (items.foldr (fun a t => member (key a) (text a) ++ 0x2c :: t) tail) =
      .ok (items.map (fun a => (utf8 (key a), value a)) ++ fields, r) := by
  induction items generalizing fuel with
  | nil => exact later fuel (by simp at enough; omega)
  | cons item items ih =>
    obtain ⟨fuel, rfl⟩ := Nat.exists_eq_add_of_lt (Nat.zero_lt_of_lt enough)
    rw [List.length_cons] at enough
    have rest := ih (fun a inside => keys a (List.mem_cons_of_mem _ inside))
      (fun a inside => reads a (List.mem_cons_of_mem _ inside)) (0 + fuel) (by omega)
    have inner := (reads item (by simp)).parsed (0 + fuel)
      (0x2c :: items.foldr (fun a t => member (key a) (text a) ++ 0x2c :: t) tail) (by omega) (closed_cons (by decide) _)
    have shape : (item :: items).foldr (fun a t => member (key a) (text a) ++ 0x2c :: t) tail =
        0x22 :: escaped (utf8 (key item)) ++ 0x22 :: 0x3a ::
          (text item ++ 0x2c :: items.foldr (fun a t => member (key a) (text a) ++ 0x2c :: t) tail) := by
      simp [member, quoted_eq]
    rw [shape, parse_fields_step (keys item (by simp)) inner, delimiter_comma, if_pos rfl, rest]
    rfl

theorem object_read (items : List α) (rest : Bytes) (keys : ∀ a ∈ items, StringText (utf8 (key a)))
    (reads : ∀ a ∈ items, Reads depth (text a) (value a)) (fuel : Nat) (enough : depth + items.length + 2 < fuel) :
    jParseVal fuel (object (items.map fun a => member (key a) (text a)) ++ rest) =
      .ok (.obj (items.map fun a => (utf8 (key a), value a)), rest) := by
  obtain ⟨fuel, rfl⟩ := Nat.exists_eq_add_of_lt (Nat.zero_lt_of_lt enough)
  rw [object, List.cons_append, List.cons_append, List.append_assoc, List.singleton_append]
  cases items with
  | nil =>
    rw [parse_val_head _ (by decide)]
    rfl
  | cons item items =>
    obtain ⟨s, front⟩ : ∃ s, commas ((item :: items).map fun a => member (key a) (text a)) = 0x22 :: s := by
      apply commas_head
      rw [List.map_cons, List.head?_cons, member, quoted_eq]
      rfl
    have inner := fields_read item items rest keys reads (0 + fuel) (by simp at enough; omega)
    rw [front, List.cons_append] at inner ⊢
    exact parse_obj inner

theorem reads_object (items : List α) (keys : ∀ a ∈ items, StringText (utf8 (key a)))
    (reads : ∀ a ∈ items, Reads depth (text a) (value a)) :
    Reads (depth + items.length + 2) (object (items.map fun a => member (key a) (text a)))
      (.obj (items.map fun a => (utf8 (key a), value a))) where
  head := ⟨0x7b, _, rfl, by decide, by decide⟩
  parsed := fun fuel rest enough _ => object_read items rest keys reads fuel enough

theorem commas_length {texts : List Bytes} (some_ : ∀ t ∈ texts, t ≠ []) : texts.length ≤ (commas texts).length := by
  induction texts with
  | nil => exact Nat.zero_le _
  | cons first rest ih =>
    have one : 0 < first.length := List.length_pos_of_ne_nil (some_ first (by simp))
    have more := ih fun t inside => some_ t (List.mem_cons_of_mem _ inside)
    cases rest with
    | nil => exact one
    | cons next rest =>
      simp only [commas, List.length_append, List.length_cons] at more ⊢
      omega

end Lists

theorem commas_visible {texts : List Bytes} (all : ∀ t ∈ texts, Visible t) : Visible (commas texts) := by
  induction texts with
  | nil => exact fun c inside => by cases inside
  | cons first rest ih =>
    have more := ih fun t inside => all t (List.mem_cons_of_mem _ inside)
    cases rest with
    | nil => exact all first (by simp)
    | cons next rest => exact visible_append.mpr ⟨all first (by simp), visible_cons.mpr ⟨by decide, more⟩⟩

end SamosaChat.Json
