import SamosaChat.Json.Record

set_option autoImplicit false

namespace SamosaChat.Json

open Utf8 Text

-- Trees that are changed at one path: the fields of an object, with the old ones left where they are.

abbrev Members := List (Bytes × Jval)

def without (keys : List Bytes) (fields : Members) : Members :=
  fields.filter fun field => field.1 ∉ keys

def children (fields : Members) (key : Bytes) : Members :=
  match find key fields with
  | some (.obj kids) => kids
  | _ => []

def put (key : Bytes) (value : Jval) (fields : Members) : Members :=
  without [key] fields ++ [(key, value)]

def assign : List Bytes → Jval → Members → Members
  | [], _, fields => fields
  | [key], value, fields => put key value fields
  | key :: next :: path, value, fields => put key (.obj (assign (next :: path) value (children fields key))) fields

def lookup : List Bytes → Jval → Option Jval
  | [], value => some value
  | key :: path, value => (jsonGet value key).bind (lookup path)

def Apart (path other : List Bytes) : Prop :=
  ¬path <+: other ∧ ¬other <+: path

section Lookups

variable {key other : Bytes} {keys : List Bytes} {value : Jval} {fields : Members}

theorem find_append (key : Bytes) (fields fields' : Members) :
    find key (fields ++ fields') = (find key fields).or (find key fields') := by
  induction fields with
  | nil => rfl
  | cons field fields ih =>
    obtain ⟨name, kid⟩ := field
    rw [List.cons_append, find, find]
    by_cases same : name = key
    · rw [if_pos same, if_pos same, Option.some_or]
    · rw [if_neg same, if_neg same, ih]

theorem find_without (key : Bytes) (keys : List Bytes) (fields : Members) :
    find key (without keys fields) = if key ∈ keys then none else find key fields := by
  induction fields with
  | nil => simp [without, find]
  | cons field fields ih =>
    obtain ⟨name, kid⟩ := field
    unfold without at ih ⊢
    by_cases gone : name ∈ keys
    · rw [List.filter_cons_of_neg (by simpa using gone), ih, find]
      by_cases inside : key ∈ keys
      · rw [if_pos inside, if_pos inside]
      · have different : name ≠ key := by
          rintro rfl
          exact inside gone
        rw [if_neg inside, if_neg inside, if_neg different]
    · rw [List.filter_cons_of_pos (by simpa using gone), find, ih, find]
      by_cases same : name = key
      · rw [if_pos same, if_pos same, if_neg (same ▸ gone)]
      · rw [if_neg same, if_neg same]

theorem find_put (key : Bytes) (value : Jval) (fields : Members) : find key (put key value fields) = some value := by
  rw [put, find_append, find_without, if_pos (List.mem_singleton_self key), Option.none_or, find, if_pos rfl]

theorem find_put_other (different : other ≠ key) : find other (put key value fields) = find other fields := by
  rw [put, find_append, find_without, if_neg (by simpa using different), find, if_neg (Ne.symm different), find, Option.or_none]

theorem children_put (key : Bytes) (kids fields : Members) : children (put key (.obj kids) fields) key = kids := by
  rw [children, find_put]

theorem children_put_other (different : other ≠ key) : children (put key value fields) other = children fields other := by
  rw [children, children, find_put_other different]

theorem put_put (key : Bytes) (value value' : Jval) (fields : Members) :
    put key value' (put key value fields) = put key value' fields := by
  have last : without [key] [(key, value)] = [] := by simp [without]
  have twice : without [key] (without [key] fields) = without [key] fields := by simp [without]
  rw [put, put, put]
  unfold without at last twice ⊢
  rw [List.filter_append, last, twice, List.append_nil]

theorem lookup_children {path : List Bytes} (some_ : path ≠ []) (fields : Members) (key : Bytes) :
    lookup path (.obj (children fields key)) = (find key fields).bind (lookup path) := by
  cases path with
  | nil => exact absurd rfl some_
  | cons next path =>
    unfold children
    split
    · rename_i kids found
      rw [found, Option.bind_some]
    · rename_i other
      cases found : find key fields with
      | none => rfl
      | some kid =>
        cases kid with
        | obj kids => exact absurd found (other kids)
        | _ => rfl

theorem lookup_assign : ∀ (path : List Bytes) (value : Jval) (fields : Members), path ≠ [] →
    lookup path (.obj (assign path value fields)) = some value
  | [], _, _, some_ => absurd rfl some_
  | [key], value, fields, _ => by
    rw [assign, lookup, jsonGet, find_put, Option.bind_some, lookup]
  | key :: next :: path, value, fields, _ => by
    rw [assign, lookup, jsonGet, find_put, Option.bind_some]
    exact lookup_assign (next :: path) value (children fields key) (List.cons_ne_nil next path)

theorem lookup_assign_apart : ∀ (path other : List Bytes) (value : Jval) (fields : Members), Apart path other →
    lookup other (.obj (assign path value fields)) = lookup other (.obj fields)
  | [], _, _, _, apart => absurd (List.nil_prefix) apart.1
  | _ :: _, [], _, _, apart => absurd (List.nil_prefix) apart.2
  | [key], key' :: other, value, fields, apart => by
    have different : key' ≠ key := by
      rintro rfl
      exact apart.1 (List.prefix_append [key'] other)
    rw [assign, lookup, lookup, jsonGet, jsonGet, find_put_other different]
  | key :: next :: path, key' :: other, value, fields, apart => by
    rw [assign, lookup, lookup, jsonGet, jsonGet]
    by_cases same : key' = key
    · subst same
      have some_ : other ≠ [] := by
        rintro rfl
        exact apart.2 (List.prefix_append [key'] (next :: path))
      have later : Apart (next :: path) other :=
        ⟨fun before => apart.1 (List.cons_prefix_cons.mpr ⟨rfl, before⟩),
          fun before => apart.2 (List.cons_prefix_cons.mpr ⟨rfl, before⟩)⟩
      rw [find_put, Option.bind_some, lookup_assign_apart (next :: path) other value _ later, lookup_children some_]
    · rw [find_put_other same]

end Lookups

section Sizes

def fieldText (field : Bytes × Jval) : Bytes :=
  quoted field.1 ++ 0x3a :: written field.2

theorem field_text_length (key : Bytes) (value : Jval) :
    (fieldText (key, value)).length = (quoted key).length + (written value).length + 1 := by
  rw [fieldText, List.length_append, List.length_cons]
  rfl

def weight (fields : Members) : Nat :=
  (fields.map fun field => (fieldText field).length + 1).sum

theorem written_fields_text (fields : Members) :
    writtenFields false fields = (fields.map fun field => 0x2c :: fieldText field).flatten := by
  induction fields with
  | nil => rfl
  | cons field fields ih =>
    rw [writtenFields, ih, List.map_cons, List.flatten_cons, fieldText, quoted_eq]
    simp

theorem object_text (fields : Members) : object (fields.map fieldText) = written (.obj fields) := by
  have tail : ∀ (field : Bytes × Jval) (fields : Members), commas ((field :: fields).map fieldText) =
      fieldText field ++ (fields.map fun field => 0x2c :: fieldText field).flatten := by
    intro field fields
    induction fields generalizing field with
    | nil => simp [commas]
    | cons next fields ih =>
      rw [List.map_cons, List.map_cons, commas, ← List.map_cons, ih next, List.map_cons, List.flatten_cons]
      rfl
  rw [object, written]
  cases fields with
  | nil => rfl
  | cons field fields =>
    rw [tail, ← written_fields_text, writtenFields, fieldText, quoted_eq]
    simp

theorem written_length (fields : Members) :
    weight fields + 1 ≤ (written (.obj fields)).length ∧ (written (.obj fields)).length ≤ weight fields + 2 := by
  cases fields with
  | nil => exact ⟨Nat.le_succ 1, Nat.le_refl 2⟩
  | cons field fields =>
    have rest : (writtenFields false fields).length = weight fields := by
      rw [written_fields_text, List.length_flatten, List.map_map, weight]
      rfl
    have whole : (written (.obj (field :: fields))).length = (fieldText field).length + weight fields + 2 := by
      rw [written, writtenFields, fieldText, quoted_eq, ← rest]
      simp only [if_true, List.nil_append, List.length_append, List.length_cons, List.length_nil]
      omega
    rw [whole, weight, List.map_cons, List.sum_cons, ← weight]
    omega

def growth : List Bytes → Jval → Nat
  | [], _ => 0
  | [key], value => (fieldText (key, value)).length + 1
  | key :: next :: path, value => (quoted key).length + 4 + growth (next :: path) value

theorem weight_append (fields fields' : Members) : weight (fields ++ fields') = weight fields + weight fields' := by
  rw [weight, weight, weight, List.map_append, List.sum_append]

theorem weight_without (keys : List Bytes) (fields : Members) : weight (without keys fields) ≤ weight fields := by
  induction fields with
  | nil => exact Nat.le_refl 0
  | cons field fields ih =>
    unfold without weight at ih ⊢
    by_cases gone : field.1 ∈ keys
    · rw [List.filter_cons_of_neg (by simpa using gone), List.map_cons, List.sum_cons]
      exact ih.trans (Nat.le_add_left _ _)
    · rw [List.filter_cons_of_pos (by simpa using gone), List.map_cons, List.sum_cons, List.map_cons, List.sum_cons]
      exact Nat.add_le_add_left ih _

theorem weight_children (fields : Members) (key : Bytes) :
    weight (without [key] fields) + weight (children fields key) ≤ weight fields := by
  induction fields with
  | nil => exact Nat.le_refl 0
  | cons field fields ih =>
    obtain ⟨name, kid⟩ := field
    have less := weight_without [key] fields
    by_cases same : name = key
    · have gone : without [key] ((name, kid) :: fields) = without [key] fields :=
        List.filter_cons_of_neg (by simp [same])
      rw [gone, children, find, if_pos same]
      have sum : weight ((name, kid) :: fields) = (fieldText (name, kid)).length + 1 + weight fields := rfl
      cases kid with
      | obj kids =>
        have size := (written_length kids).1
        have text := field_text_length name (.obj kids)
        dsimp only
        omega
      | _ => exact Nat.le_trans less (by omega)
    · have stays : without [key] ((name, kid) :: fields) = (name, kid) :: without [key] fields :=
        List.filter_cons_of_pos (by simp [same])
      have child : children ((name, kid) :: fields) key = children fields key := by
        rw [children, find, if_neg same, children]
      have sum : ∀ rest, weight ((name, kid) :: rest) = (fieldText (name, kid)).length + 1 + weight rest := fun _ => rfl
      rw [stays, child, sum, sum]
      omega

theorem weight_put (key : Bytes) (value : Jval) (fields : Members) :
    weight (put key value fields) = weight (without [key] fields) + ((fieldText (key, value)).length + 1) := by
  rw [put, weight_append]
  rfl

theorem weight_assign : ∀ (path : List Bytes) (value : Jval) (fields : Members),
    weight (assign path value fields) ≤ weight fields + growth path value
  | [], _, _ => Nat.le_refl _
  | [key], value, fields => by
    have less := weight_without [key] fields
    rw [assign, weight_put, growth]
    omega
  | key :: next :: path, value, fields => by
    have inner := weight_assign (next :: path) value (children fields key)
    have split := weight_children fields key
    have size := (written_length (assign (next :: path) value (children fields key))).2
    rw [assign, weight_put, growth, field_text_length]
    omega

end Sizes

section Writable

theorem writable_children {fields : Members} (writable : WritableFields fields) (key : Bytes) :
    WritableFields (children fields key) := by
  induction fields with
  | nil => trivial
  | cons field fields ih =>
    obtain ⟨name, kid⟩ := field
    rw [children, find]
    by_cases same : name = key
    · rw [if_pos same]
      cases kid with
      | obj kids => exact writable.2.1
      | _ => trivial
    · rw [if_neg same]
      exact ih writable.2.2

theorem writable_put {key : Bytes} {value : Jval} {fields : Members} (string : StringText key) (value_ : Writable value)
    (writable : WritableFields fields) : WritableFields (put key value fields) := by
  rw [writable_fields_iff] at writable ⊢
  intro field inside
  rcases List.mem_append.mp inside with old | new
  · exact writable field (List.mem_filter.mp old).1
  · rw [List.mem_singleton.mp new]
    exact ⟨string, value_⟩

theorem writable_assign : ∀ {path : List Bytes} {value : Jval} {fields : Members}, (∀ key ∈ path, StringText key) →
    Writable value → WritableFields fields → WritableFields (assign path value fields)
  | [], _, _, _, _, writable => writable
  | [key], value, fields, keys, value_, writable => writable_put (keys key (by simp)) value_ writable
  | key :: next :: path, value, fields, keys, value_, writable => by
    apply writable_put (keys key (by simp)) _ writable
    exact @writable_assign (next :: path) value _ (fun k inside => keys k (List.mem_cons_of_mem _ inside)) value_
      (writable_children writable key)

end Writable

end SamosaChat.Json
