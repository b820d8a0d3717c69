import SamosaChat.Json.Members

set_option autoImplicit false

namespace SamosaChat.Json

open Utf8 Text Binary64 Buffers

def parsed (text : Bytes) : Option Jval :=
  match jsonParse text with
  | .ok (value, _) => some value
  | .error _ => none

def copied (cap : Nat) [NeZero cap] (o : Jval) (key : String) : Buffer cap :=
  match jsonGet o (utf8 key) with
  | some (.str str) => (pathCopy cap str).1
  | _ => empty cap

def orNull {cap : Nat} (buffer : Buffer cap) : Jval :=
  if buffer.text = [] then .null else .str buffer.text

-- An object whose keys are literals of the source.
def record (fields : List (String × Jval)) : Jval :=
  .obj (fields.map fun field => (utf8 field.1, field.2))

theorem encode_injective {codes codes' : List Nat} (scalars : ∀ code ∈ codes, Scalar code)
    (scalars' : ∀ code ∈ codes', Scalar code) (same : encode codes = encode codes') : codes = codes' := by
  induction codes generalizing codes' with
  | nil =>
    cases codes' with
    | nil => rfl
    | cons code rest =>
      rw [encode_cons] at same
      exact absurd (List.append_eq_nil_iff.mp same.symm).1 (sequence_ne_nil code)
  | cons code rest ih =>
    cases codes' with
    | nil =>
      rw [encode_cons] at same
      exact absurd (List.append_eq_nil_iff.mp same).1 (sequence_ne_nil code)
    | cons code' rest' =>
      rw [encode_cons, encode_cons] at same
      have first := decode_one_sequence (scalars code (by simp)) (encode rest)
      rw [same, decode_one_sequence (scalars' code' (by simp))] at first
      cases first
      rw [ih (fun c inside => scalars c (List.mem_cons_of_mem _ inside))
        (fun c inside => scalars' c (List.mem_cons_of_mem _ inside)) (List.append_cancel_left same)]

theorem char_scalar (c : Char) : Scalar c.toNat := by
  rcases c.valid with low | high
  · exact .inl low
  · exact .inr ⟨high.1, high.2⟩

theorem utf8_injective : Function.Injective utf8 := by
  intro text text' same
  have scalars : ∀ text : String, ∀ code ∈ text.toList.map Char.toNat, Scalar code := by
    intro text code inside
    obtain ⟨c, _, rfl⟩ := List.mem_map.mp inside
    exact char_scalar c
  have codes := encode_injective (scalars text) (scalars text') same
  exact String.toList_inj.mp ((List.map_injective_iff.mpr fun _ _ => Char.toNat_inj.mp) codes)

theorem ascii_string {text : Bytes} (ascii : ∀ c ∈ text, c.toNat < 0x80) (noNul : (0 : UInt8) ∉ text) : StringText text := by
  refine ⟨⟨text.map UInt8.toNat, ?_, ?_⟩, noNul⟩
  · intro code inside
    obtain ⟨c, inside', rfl⟩ := List.mem_map.mp inside
    exact .inl ((ascii c inside').trans (by decide))
  · clear noNul
    induction text with
    | nil => rfl
    | cons c rest ih =>
      rw [List.map_cons, encode_cons, sequence_one (ascii c (by simp)), ih fun d inside => ascii d (List.mem_cons_of_mem _ inside)]
      rfl

theorem get_record (fields : List (String × Jval)) (key : String) : jsonGet (record fields) (utf8 key) = fields.lookup key := by
  rw [record, jsonGet]
  induction fields with
  | nil => rfl
  | cons field fields ih =>
    obtain ⟨name, kid⟩ := field
    rw [List.map_cons, Json.find, List.lookup_cons]
    by_cases same : name = key
    · rw [if_pos (congrArg utf8 same), same, beq_self_eq_true]
    · rw [if_neg fun one => same (utf8_injective one), ih, beq_false_of_ne (Ne.symm same)]

theorem copied_str {cap : Nat} [NeZero cap] {fields : List (String × Jval)} {key : String} {buffer : Buffer cap}
    (found : fields.lookup key = some (.str buffer.text)) : copied cap (record fields) key = buffer := by
  rw [copied, get_record, found]
  exact path_copy_self buffer

theorem copied_or_null {cap : Nat} [NeZero cap] {fields : List (String × Jval)} {key : String} {buffer : Buffer cap}
    (found : fields.lookup key = some (orNull buffer)) : copied cap (record fields) key = buffer := by
  by_cases none_ : buffer.text = []
  · rw [copied, get_record, found, orNull, if_pos none_]
    exact buffer_ext none_.symm
  · rw [orNull, if_neg none_] at found
    exact copied_str found

theorem record_writable : ∀ fields : List (String × Jval),
    (∀ field ∈ fields, (0 : UInt8) ∉ utf8 field.1 ∧ Writable field.2) → Writable (record fields)
  | [], _ => trivial
  | field :: fields, all =>
    ⟨literal_text (all field (by simp)).1, (all field (by simp)).2,
      record_writable fields fun other inside => all other (List.mem_cons_of_mem _ inside)⟩

theorem writable_fields_iff (fields : List (Bytes × Jval)) :
    WritableFields fields ↔ ∀ field ∈ fields, StringText field.1 ∧ Writable field.2 := by
  induction fields with
  | nil => exact iff_of_true trivial fun field inside => by cases inside
  | cons field fields ih => rw [WritableFields, ih, List.forall_mem_cons, and_assoc]

theorem object_before {fields : List (Bytes × Jval)} {rest : Bytes} (writable : Writable (.obj fields))
    (text : (0 : UInt8) ∉ rest) : jsonParse (written (.obj fields) ++ rest) = .ok (.obj fields, rest) := by
  have whole : cstr (written (.obj fields) ++ rest) = written (.obj fields) ++ rest := by
    apply cstr_self
    rw [List.mem_append]
    exact fun inside => inside.elim (visible_text (written_visible (.obj fields))) text
  have read : ∀ fuel, 2 * (written (.obj fields) ++ rest).length + 2 ≤ fuel →
      jParseVal fuel (written (.obj fields) ++ rest) = .ok (.obj fields, rest) := by
    intro fuel enough
    obtain ⟨fuel, rfl⟩ := Nat.exists_eq_add_of_le' (Nat.one_le_of_lt enough)
    cases fields with
    | nil => rfl
    | cons field fields =>
      obtain ⟨key, kid⟩ := field
      rw [written, List.cons_append, List.cons_append, List.append_assoc, List.singleton_append] at enough ⊢
      rw [List.length_cons] at enough
      apply parse_obj
      exact parse_written_fields key kid fields fuel rest writable (by omega)
  rw [jsonParse, whole, read (fuelFor _) (Nat.le_refl _)]

theorem parse_object {fields : List (Bytes × Jval)} {rest : Bytes} (writable : Writable (.obj fields))
    (text : (0 : UInt8) ∉ rest) : parsed (written (.obj fields) ++ rest) = some (.obj fields) := by
  rw [parsed, object_before writable text]

theorem written_quoted (str : Bytes) : written (.str str) = quoted str := by
  rw [quoted_eq]
  rfl

end SamosaChat.Json
