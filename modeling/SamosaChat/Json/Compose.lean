import SamosaChat.Json.Printed

set_option autoImplicit false

namespace SamosaChat.JsonMeaning

open Utf8 Text Binary64 Decimal
open JsonGrammar hiding Value Chars Kids Fields Numeral
open Json hiding Value Chars Kids Fields

section Behind

variable {s r : Bytes} (x : Bytes)

theorem ws_append (blank : Ws s r) : Ws (s ++ x) (r ++ x) := by
  obtain ⟨blanks, all, rfl⟩ := blank
  exact ⟨blanks, all, List.append_assoc _ _ _⟩

theorem chars_append {elements : List Element} (chars : JsonGrammar.Chars s elements r) :
    JsonGrammar.Chars (s ++ x) elements (r ++ x) := by
  induction chars with
  | close r => exact .close (r ++ x)
  | raw inner other high _ ih => exact .raw inner other high ih
  | escape known _ ih => exact .escape known ih
  | code hex _ ih => exact .code hex ih

mutual

theorem value_append : ∀ {s r : Bytes} {tree : Tree}, JsonGrammar.Value s tree r → JsonGrammar.Value (s ++ x) tree (r ++ x)
  | _, _, _, .null r => by
    rw [List.append_assoc]
    exact .null (r ++ x)
  | _, _, _, .yes r => by
    rw [List.append_assoc]
    exact .yes (r ++ x)
  | _, _, _, .no r => by
    rw [List.append_assoc]
    exact .no (r ++ x)
  | _, _, _, .num numeral r => by
    rw [List.append_assoc]
    exact .num numeral (r ++ x)
  | _, _, _, .str chars => .str (chars_append x chars)
  | _, _, _, .emptyArr blank => .emptyArr (ws_append x blank)
  | _, _, _, .arr blank kids => .arr (ws_append x blank) (kids_append kids)
  | _, _, _, .emptyObj blank => .emptyObj (ws_append x blank)
  | _, _, _, .obj blank fields => .obj (ws_append x blank) (fields_append fields)

theorem kids_append : ∀ {s r : Bytes} {kids : List Tree}, JsonGrammar.Kids s kids r → JsonGrammar.Kids (s ++ x) kids (r ++ x)
  | _, _, _, .last value close => .last (value_append value) (ws_append x close)
  | _, _, _, .more value comma blank rest =>
    .more (value_append value) (ws_append x comma) (ws_append x blank) (kids_append rest)

theorem fields_append : ∀ {s r : Bytes} {fields : List (Bytes × Tree)}, JsonGrammar.Fields s fields r →
    JsonGrammar.Fields (s ++ x) fields (r ++ x)
  | _, _, _, .last name colon blank value close =>
    .last (chars_append x name) (ws_append x colon) (ws_append x blank) (value_append value) (ws_append x close)
  | _, _, _, .more name colon blank value comma blank' rest =>
    .more (chars_append x name) (ws_append x colon) (ws_append x blank) (value_append value) (ws_append x comma)
      (ws_append x blank') (fields_append rest)

end

end Behind

theorem find_mapped {key : Bytes} {fields : List (Bytes × Jval)} (clean : ∀ field ∈ fields, (0 : UInt8) ∉ field.1) :
    Json.find key (mappedFields cstr fields) = (Json.find key fields).map (mapped cstr) := by
  induction fields with
  | nil => rfl
  | cons field fields ih =>
    obtain ⟨name, kid⟩ := field
    obtain ⟨first, rest⟩ := List.forall_mem_cons.mp clean
    rw [mappedFields, Json.find, Json.find, cstr_self first, ih rest]
    split <;> rfl

theorem means_inside {text : Bytes} {value : Jval} (means : Means text value) :
    ∃ tree, meant tree = value ∧ ∀ x, ∃ t r, Ws (text ++ x) t ∧ JsonGrammar.Value t tree r ∧ Ws r x := by
  obtain ⟨tree, ⟨t, r, front, inside, behind⟩, same⟩ := means
  exact ⟨tree, same, fun x => ⟨t ++ x, r ++ x, ws_append x front, value_append x inside, ws_append x behind⟩⟩

theorem means_behind {text : Bytes} {value : Jval} (means : Means text value) {blanks : Bytes}
    (all : ∀ c ∈ blanks, isSpace c = true) : Means (text ++ blanks) value := by
  obtain ⟨tree, same, reads⟩ := means_inside means
  obtain ⟨t, r, front, inside, ⟨between, spaces, shape⟩⟩ := reads blanks
  refine ⟨tree, ⟨t, r, front, inside, between ++ blanks, ?_, by rw [shape, List.append_nil]⟩, same⟩
  exact fun c among => (List.mem_append.mp among).elim (spaces c) (all c)

theorem means_quoted {str : Bytes} (string : StringText str) : Means (quoted str) (.str str) := by
  have means := (means_written (.str str) (.str (lossy str))).mpr ⟨trivial, rfl⟩
  rw [lossy_valid string.1] at means
  rw [quoted_eq]
  exact means

theorem means_lossy (str : Bytes) : Means (quoted str) (.str (lossy str)) := by
  rw [quoted_eq]
  exact (means_written (.str str) (.str (lossy str))).mpr ⟨trivial, rfl⟩

theorem means_plain {plain : Bytes} (all : ∀ c ∈ plain, c ≠ 0x22 ∧ c ≠ 0x5c ∧ ¬c < 0x20) :
    Means (0x22 :: plain ++ [0x22]) (.str plain) := by
  obtain ⟨elements, chars, same⟩ := spells_plain all (⟨[], .close [], rfl⟩ : Spells [0x22] [] [])
  rw [List.append_nil] at same
  exact ⟨.str (bytesOf elements), ⟨_, [], ws_none _, .str chars, ws_none _⟩, by rw [meant, same]⟩

theorem means_bool (boolean : Bool) : Means (utf8 (if boolean then "true" else "false")) (.bool boolean) :=
  (means_written (.bool boolean) (.bool boolean)).mpr ⟨trivial, rfl⟩

theorem means_decimal (n : Nat) : Means (decimal n) (.num (ofScaled false 10 n 0)) := by
  have lead : (decimal n).head? = some 0x30 → decimal n = [0x30] := by
    rcases Nat.eq_zero_or_pos n with rfl | some_
    · exact fun _ => rfl
    · exact fun front => absurd front (decimal_lead (Nat.ne_of_gt some_))
  let numeral : JsonGrammar.Numeral :=
    { negative := false, whole := decimal n, fraction := none, power := none, some_ := decimal_ne_nil n, all := fun _ => decimal_digits,
      lead }
  have text : numeral.text = decimal n := by
    change [] ++ decimal n ++ [] ++ [] = decimal n
    simp
  have mantissa : numeral.mantissa = n := by
    change digitsValue (decimal n ++ []) = n
    rw [List.append_nil, digits_value_decimal]
  have inside := JsonGrammar.Value.num numeral []
  rw [text, mantissa] at inside
  refine ⟨.num false n 0, ⟨decimal n ++ [], [], ?_, inside, ws_none _⟩, rfl⟩
  rw [List.append_nil]
  exact ws_none _

section Lists

variable {α : Type} {key : α → String} {text : α → Bytes} {value : α → Jval}

theorem kids_composed (item : α) (items : List α) (each : ∀ a ∈ item :: items, Means (text a) (value a)) (r : Bytes) :
    ∃ trees t, Ws (commas ((item :: items).map text) ++ 0x5d :: r) t ∧ JsonGrammar.Kids t trees r ∧
      meantKids trees = (item :: items).map value := by
  induction items generalizing item with
  | nil =>
    obtain ⟨tree, same, reads⟩ := means_inside (each item List.mem_cons_self)
    obtain ⟨t, w, front, inside, behind⟩ := reads (0x5d :: r)
    exact ⟨[tree], t, front, .last inside behind, by rw [meantKids, same]; rfl⟩
  | cons next items ih =>
    obtain ⟨trees, u, blank, rest, later⟩ := ih next fun a among => each a (List.mem_cons_of_mem _ among)
    obtain ⟨tree, same, reads⟩ := means_inside (each item List.mem_cons_self)
    obtain ⟨t, w, front, inside, behind⟩ := reads (0x2c :: (commas ((next :: items).map text) ++ 0x5d :: r))
    refine ⟨tree :: trees, t, ?_, .more inside behind blank rest, by rw [meantKids, same, later]; rfl⟩
    rw [List.map_cons, List.map_cons, commas, ← List.map_cons, List.append_assoc]
    exact front

theorem means_array (items : List α) (each : ∀ a ∈ items, Means (text a) (value a)) :
    Means (array (items.map text)) (.arr (items.map value)) := by
  cases items with
  | nil => exact ⟨.arr [], ⟨_, [], ws_none _, .emptyArr (ws_none _), ws_none _⟩, rfl⟩
  | cons item items =>
    obtain ⟨trees, t, blank, inside, same⟩ := kids_composed item items each []
    exact ⟨.arr trees, ⟨_, [], ws_none _, .arr blank inside, ws_none _⟩, by rw [meant, same]⟩

theorem fields_composed (item : α) (items : List α) (keys : ∀ a ∈ item :: items, StringText (utf8 (key a)))
    (each : ∀ a ∈ item :: items, Means (text a) (value a)) (r : Bytes) :
    ∃ trees, JsonGrammar.Fields (commas ((item :: items).map fun a => member (key a) (text a)) ++ 0x7d :: r) trees r ∧
      meantFields trees = (item :: items).map fun a => (utf8 (key a), value a) := by
  -- The name of a member, with what stands behind it.
  have named (a : α) (string : StringText (utf8 (key a))) (x : Bytes) : ∃ elements,
      JsonGrammar.Chars (escaped (utf8 (key a)) ++ 0x22 :: 0x3a :: x) elements (0x3a :: x) ∧ bytesOf elements = utf8 (key a) := by
    obtain ⟨elements, chars, same⟩ := spells_lossy (utf8 (key a)).length (utf8 (key a)) (0x3a :: x) (Nat.le_refl _)
    exact ⟨elements, chars, same.trans (lossy_valid string.1)⟩
  have shape (a : α) (x : Bytes) : member (key a) (text a) ++ x = 0x22 :: (escaped (utf8 (key a)) ++ 0x22 :: 0x3a :: (text a ++ x)) := by
    rw [member, quoted_eq]
    simp
  induction items generalizing item with
  | nil =>
    obtain ⟨tree, same, reads⟩ := means_inside (each item List.mem_cons_self)
    obtain ⟨t, w, front, inside, behind⟩ := reads (0x7d :: r)
    obtain ⟨elements, chars, name⟩ := named item (keys item List.mem_cons_self) (text item ++ 0x7d :: r)
    refine ⟨[(bytesOf elements, tree)], ?_, by rw [meantFields, same, name]; rfl⟩
    rw [List.map_cons, List.map_nil, commas, shape]
    exact .last chars (ws_none _) front inside behind
  | cons next items ih =>
    obtain ⟨trees, rest, later⟩ := ih next (fun a among => keys a (List.mem_cons_of_mem _ among))
      fun a among => each a (List.mem_cons_of_mem _ among)
    obtain ⟨tree, same, reads⟩ := means_inside (each item List.mem_cons_self)
    obtain ⟨t, w, front, inside, behind⟩ :=
      reads (0x2c :: (commas ((next :: items).map fun a => member (key a) (text a)) ++ 0x7d :: r))
    obtain ⟨elements, chars, name⟩ := named item (keys item List.mem_cons_self)
      (text item ++ 0x2c :: (commas ((next :: items).map fun a => member (key a) (text a)) ++ 0x7d :: r))
    refine ⟨(bytesOf elements, tree) :: trees, ?_, by rw [meantFields, same, name, later]; rfl⟩
    rw [List.map_cons, List.map_cons, commas, List.append_assoc, List.cons_append, shape]
    exact .more chars (ws_none _) front inside behind (ws_none _) rest

theorem means_object (items : List α) (keys : ∀ a ∈ items, StringText (utf8 (key a)))
    (each : ∀ a ∈ items, Means (text a) (value a)) :
    Means (object (items.map fun a => member (key a) (text a))) (.obj (items.map fun a => (utf8 (key a), value a))) := by
  cases items with
  | nil => exact ⟨.obj [], ⟨_, [], ws_none _, .emptyObj (ws_none _), ws_none _⟩, rfl⟩
  | cons item items =>
    obtain ⟨trees, inside, same⟩ := fields_composed item items keys each []
    exact ⟨.obj trees, ⟨_, [], ws_none _, .obj (ws_none _) inside, ws_none _⟩, by rw [meant, same]⟩

end Lists

abbrev Item := String × Bytes × Jval

theorem means_members (items : List Item) (clean : ∀ key ∈ items.map Prod.fst, (0 : UInt8) ∉ utf8 key)
    (each : ∀ item ∈ items, Means item.2.1 item.2.2) :
    Means (object (items.map fun item => member item.1 item.2.1)) (.obj (items.map fun item => (utf8 item.1, item.2.2))) :=
  means_object items (fun _ is => literal_text (clean _ (List.mem_map_of_mem is))) each

end SamosaChat.JsonMeaning
