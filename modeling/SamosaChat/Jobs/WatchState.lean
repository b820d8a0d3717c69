import SamosaChat.Jobs.WatchDelta

set_option autoImplicit false

namespace SamosaChat.Jobs

open Utf8 Text Binary64 Decimal FloatText Json
open Durable

def Counted (n : Nat) : Prop :=
  toUnsigned (ofScaled false 10 n 0) = n

instance (n : Nat) : Decidable (Counted n) := by
  unfold Counted
  infer_instance

structure Recorded (entry : WatchEntry) : Prop where
  text : StringText entry.path
  finite : ∃ negative magnitude, entry.mtime = .finite negative magnitude
  nine : throughNine entry.mtime = entry.mtime
  fits : (fixedNine entry.mtime).length < 64

structure Counts (entry : WatchEntry) : Prop where
  size : Counted entry.size
  dev : Counted entry.dev
  ino : Counted entry.ino

theorem floor_fits (magnitude : Magnitude) : Fits (magnitude.units / one * one) := by
  obtain ⟨units, small, unit⟩ := magnitude
  have below : units / one * one ≤ units := Nat.div_mul_le_self units one
  refine ⟨below.trans_lt small, ?_⟩
  by_cases coarse : units.log2 - 52 ≤ 1074
  · by_cases none_ : units / one * one = 0
    · rw [none_]
      exact Nat.dvd_zero _
    have shallow : (units / one * one).log2 ≤ units.log2 := by
      rw [Nat.le_log2 (by rintro rfl; simp at none_)]
      exact (Nat.log2_self_le none_).trans below
    have divides : 2 ^ ((units / one * one).log2 - 52) ∣ one := Nat.pow_dvd_pow 2 (by omega)
    exact divides.trans (Nat.dvd_mul_left _ _)
  · have divides : one ∣ units := (Nat.pow_dvd_pow 2 (by omega)).trans unit
    rw [Nat.div_mul_cancel divides]
    exact unit

theorem counted_floor (magnitude : Magnitude) (range : magnitude.units / one ≤ 2 ^ 64 - 1) : Counted (magnitude.units / one) := by
  have denotes : Denotes (magnitude.units / one) 0 (magnitude.units / one * one) := by
    unfold Denotes
    push_cast
    ring
  have read := @of_scaled_denotes _ _ ⟨_, floor_fits magnitude⟩ false denotes
  rw [Counted, read, toUnsigned, Nat.mul_div_cancel _ FloatText.one_pos, Nat.min_eq_left range]

theorem counted_unsigned (num : Double) : Counted (toUnsigned num) := by
  have most : Counted (2 ^ 64 - 1) := by decide +kernel
  have least : Counted 0 := by decide +kernel
  cases num with
  | nan => exact least
  | inf negative =>
    cases negative with
    | true => exact least
    | false => exact most
  | finite negative magnitude =>
    cases negative with
    | true => exact least
    | false =>
      rw [toUnsigned]
      rcases Nat.le_total (magnitude.units / one) (2 ^ 64 - 1) with inside | outside
      · rw [Nat.min_eq_left inside]
        exact counted_floor magnitude inside
      · rw [Nat.min_eq_right outside]
        exact most

variable {entry : WatchEntry}

theorem watch_row_counts {pathField : String} {row : Jval} (read : watchRow pathField row = some entry) : Counts entry := by
  simp only [watchRow, Option.bind_eq_bind, Option.bind_eq_some_iff, Option.pure_def, Option.some.injEq] at read
  obtain ⟨path, _, size, _, mtime, _, dev, _, ino, _, rfl⟩ := read
  exact ⟨counted_unsigned size, counted_unsigned dev, counted_unsigned ino⟩

def rowFields (entry : WatchEntry) : List (String × Bytes × Jval) :=
  [("path", quoted entry.path, .str entry.path), ("size", decimal entry.size, .num (ofScaled false 10 entry.size 0)),
    ("mtime", fixedNine entry.mtime, .num entry.mtime), ("dev", decimal entry.dev, .num (ofScaled false 10 entry.dev 0)),
    ("ino", decimal entry.ino, .num (ofScaled false 10 entry.ino 0))]

def rowValue (entry : WatchEntry) : Jval :=
  .obj ((rowFields entry).map fun field => (utf8 field.1, field.2.2))

theorem row_text_eq (recorded : Recorded entry) :
    rowText entry = object ((rowFields entry).map fun field => member field.1 field.2.1) := by
  have path : utf8 "\x7b\"path\":" = 0x7b :: (quoted (utf8 "path") ++ [0x3a]) := by decide
  have size : utf8 ",\"size\":" = 0x2c :: (quoted (utf8 "size") ++ [0x3a]) := by decide
  have mtime : utf8 ",\"mtime\":" = 0x2c :: (quoted (utf8 "mtime") ++ [0x3a]) := by decide
  have dev : utf8 ",\"dev\":" = 0x2c :: (quoted (utf8 "dev") ++ [0x3a]) := by decide
  have ino : utf8 ",\"ino\":" = 0x2c :: (quoted (utf8 "ino") ++ [0x3a]) := by decide
  have close : utf8 "\x7d" = [0x7d] := by decide
  have whole : mtimeText entry.mtime = fixedNine entry.mtime := List.take_of_length_le (by have := recorded.fits; omega)
  rw [rowText, path, size, mtime, dev, ino, close, whole]
  simp only [rowFields, object, member, commas, List.map_cons, List.map_nil, List.append_assoc, List.cons_append, List.nil_append]

theorem reads_row (recorded : Recorded entry) : Reads 7 (rowText entry) (rowValue entry) := by
  rw [row_text_eq recorded]
  apply reads_object (rowFields entry)
  · intro field inside
    simp only [rowFields, List.mem_cons, List.not_mem_nil, or_false] at inside
    apply literal_text
    rcases inside with rfl | rfl | rfl | rfl | rfl <;> simp only <;> decide
  · obtain ⟨negative, magnitude, shape⟩ := recorded.finite
    have nine := reads_fixed negative magnitude
    rw [← shape, recorded.nine] at nine
    intro field inside
    simp only [rowFields, List.mem_cons, List.not_mem_nil, or_false] at inside
    rcases inside with rfl | rfl | rfl | rfl | rfl
    · exact reads_quoted recorded.text
    · exact reads_decimal entry.size
    · exact nine
    · exact reads_decimal entry.dev
    · exact reads_decimal entry.ino

theorem watch_row_value (counts : Counts entry) : watchRow "path" (rowValue entry) = some entry := by
  have path : jsonGet (rowValue entry) (utf8 "path") = some (.str entry.path) := if_pos rfl
  have size : jsonGet (rowValue entry) (utf8 "size") = some (.num (ofScaled false 10 entry.size 0)) := by
    simp [rowValue, rowFields, jsonGet, Json.find, show utf8 "path" ≠ utf8 "size" by decide]
  have mtime : jsonGet (rowValue entry) (utf8 "mtime") = some (.num entry.mtime) := by
    simp [rowValue, rowFields, jsonGet, Json.find, show utf8 "path" ≠ utf8 "mtime" by decide,
      show utf8 "size" ≠ utf8 "mtime" by decide]
  have dev : jsonGet (rowValue entry) (utf8 "dev") = some (.num (ofScaled false 10 entry.dev 0)) := by
    simp [rowValue, rowFields, jsonGet, Json.find, show utf8 "path" ≠ utf8 "dev" by decide,
      show utf8 "size" ≠ utf8 "dev" by decide, show utf8 "mtime" ≠ utf8 "dev" by decide]
  have ino : jsonGet (rowValue entry) (utf8 "ino") = some (.num (ofScaled false 10 entry.ino 0)) := by
    simp [rowValue, rowFields, jsonGet, Json.find, show utf8 "path" ≠ utf8 "ino" by decide,
      show utf8 "size" ≠ utf8 "ino" by decide, show utf8 "mtime" ≠ utf8 "ino" by decide,
      show utf8 "dev" ≠ utf8 "ino" by decide]
  have same := counts.size
  have same' := counts.dev
  have same'' := counts.ino
  unfold Counted at same same' same''
  simp only [watchRow, stringField, numberField, path, size, mtime, dev, ino, Option.bind_eq_bind, Option.bind_some,
    Option.pure_def, same, same', same'']

theorem rows_back {entries : List WatchEntry} (counts : ∀ entry ∈ entries, Counts entry) :
    (entries.map rowValue).mapM (watchRow "path") = some entries := by
  induction entries with
  | nil => rfl
  | cons entry entries ih =>
    have first := watch_row_value (counts entry (by simp))
    have rest := ih fun other inside => counts other (List.mem_cons_of_mem _ inside)
    rw [List.map_cons, List.mapM_cons, first, rest]
    rfl

def stateFields (entries : List WatchEntry) : List (String × Bytes × Jval) :=
  [("schema_version", decimal 1, .num (ofScaled false 10 1 0)), ("files", array (entries.map rowText), .arr (entries.map rowValue))]

theorem state_text_eq (entries : List WatchEntry) :
    stateText entries = object ((stateFields entries).map fun field => member field.1 field.2.1) ++ [newline] := by
  have head : utf8 "\x7b\"schema_version\":1,\"files\":[" =
      0x7b :: (quoted (utf8 "schema_version") ++ 0x3a :: decimal 1) ++ 0x2c :: (quoted (utf8 "files") ++ [0x3a, 0x5b]) := by
    decide +kernel
  have tail : utf8 "]\x7d\n" = [0x5d, 0x7d, newline] := by decide
  rw [stateText, head, tail]
  simp only [stateFields, object, array, member, commas, List.map_cons, List.map_nil, List.append_assoc,
    List.cons_append, List.nil_append]

theorem row_text_some (entry : WatchEntry) : rowText entry ≠ [] := by
  have open_ : utf8 "\x7b\"path\":" ≠ [] := by decide
  intro empty
  simp only [rowText, List.append_eq_nil_iff] at empty
  exact open_ empty.1.1.1.1.1.1.1.1.1.1

theorem decimal_visible (n : Nat) : Visible (decimal n) :=
  digits_visible fun _ inside => .inl (decimal_digits inside)

theorem fixed_visible (negative : Bool) (magnitude : Magnitude) : Visible (fixedNine (.finite negative magnitude)) := by
  have all : Visible (fixedMagnitude magnitude) := by
    apply digits_visible
    intro c inside
    rcases List.mem_append.mp inside with whole | fraction
    · exact .inl (decimal_digits whole)
    · rcases List.mem_cons.mp fraction with rfl | digit
      · exact .inr rfl
      · exact .inl (nine_digits_digits digit)
  cases negative with
  | true => exact visible_cons.mpr ⟨by decide, all⟩
  | false => exact all

theorem object_visible {members : List Bytes} (all : ∀ t ∈ members, Visible t) : Visible (object members) :=
  visible_append.mpr ⟨visible_cons.mpr ⟨by decide, commas_visible all⟩, by decide⟩

theorem member_visible (key : String) {text : Bytes} (visible : Visible text) : Visible (member key text) := by
  rw [member, quoted_eq]
  exact visible_append.mpr ⟨quoted_visible _, visible_cons.mpr ⟨by decide, visible⟩⟩

theorem row_visible (recorded : Recorded entry) : Visible (rowText entry) := by
  obtain ⟨negative, magnitude, shape⟩ := recorded.finite
  rw [row_text_eq recorded]
  apply object_visible
  intro t inside
  obtain ⟨field, among, rfl⟩ := List.mem_map.mp inside
  apply member_visible
  simp only [rowFields, List.mem_cons, List.not_mem_nil, or_false] at among
  rcases among with rfl | rfl | rfl | rfl | rfl
  · simp only [quoted_eq]
    exact quoted_visible entry.path
  · exact decimal_visible entry.size
  · simp only [shape]
    exact fixed_visible negative magnitude
  · exact decimal_visible entry.dev
  · exact decimal_visible entry.ino

section Saved

variable {entries : List WatchEntry}

theorem state_text (recorded : ∀ entry ∈ entries, Recorded entry) : (0 : UInt8) ∉ stateText entries := by
  have rows : Visible (array (entries.map rowText)) := by
    refine visible_append.mpr ⟨visible_cons.mpr ⟨by decide, commas_visible ?_⟩, by decide⟩
    intro t inside
    obtain ⟨entry, among, rfl⟩ := List.mem_map.mp inside
    exact row_visible (recorded entry among)
  have visible : Visible (object ((stateFields entries).map fun field => member field.1 field.2.1)) := by
    apply object_visible
    intro t inside
    obtain ⟨field, among, rfl⟩ := List.mem_map.mp inside
    apply member_visible
    simp only [stateFields, List.mem_cons, List.not_mem_nil, or_false] at among
    rcases among with rfl | rfl
    · exact decimal_visible 1
    · exact rows
  rw [state_text_eq]
  intro inside
  rcases List.mem_append.mp inside with text | line
  · exact visible_text visible text
  · exact absurd (List.mem_singleton.mp line) (by decide)

theorem state_long : entries.length + 13 ≤ (stateText entries).length := by
  have rows := @commas_length (entries.map rowText) (by
    intro t inside
    obtain ⟨entry, _, rfl⟩ := List.mem_map.mp inside
    exact row_text_some entry)
  have head : 13 ≤ (utf8 "\x7b\"schema_version\":1,\"files\":[").length := by decide
  rw [List.length_map] at rows
  simp only [stateText, List.length_append]
  omega

theorem state_value (recorded : ∀ entry ∈ entries, Recorded entry) :
    jsonValue (stateText entries) = some (.obj ((stateFields entries).map fun field => (utf8 field.1, field.2.2))) := by
  have rows := reads_array entries fun entry inside => reads_row (recorded entry inside)
  have keys : ∀ field ∈ stateFields entries, StringText (utf8 field.1) := by
    intro field inside
    simp only [stateFields, List.mem_cons, List.not_mem_nil, or_false] at inside
    apply literal_text
    rcases inside with rfl | rfl <;> simp only <;> decide
  have reads : ∀ field ∈ stateFields entries, Reads (7 + entries.length + 2) field.2.1 field.2.2 := by
    intro field inside
    simp only [stateFields, List.mem_cons, List.not_mem_nil, or_false] at inside
    rcases inside with rfl | rfl
    · exact reads_deeper (reads_decimal 1) (Nat.zero_le _)
    · exact rows
  have long := @state_long entries
  have read := object_read (stateFields entries) [newline] keys reads (fuelFor (stateText entries)) (by
    simp only [stateFields, List.length_cons, List.length_nil, fuelFor]
    omega)
  rw [← state_text_eq] at read
  rw [jsonValue, jsonParse, cstr_self (state_text recorded), read]

theorem read_state_text (recorded : ∀ entry ∈ entries, Recorded entry) (counts : ∀ entry ∈ entries, Counts entry)
    (few : entries.length ≤ maxFiles) : readState (stateText entries) = some entries := by
  have files : jsonGet (.obj ((stateFields entries).map fun field => (utf8 field.1, field.2.2))) (utf8 "files") =
      some (.arr (entries.map rowValue)) := by
    simp [stateFields, jsonGet, Json.find, show utf8 "schema_version" ≠ utf8 "files" by decide]
  rw [readState, state_value recorded, Option.bind_some, files]
  simp only
  rw [if_neg (by rw [List.length_map]; omega), rows_back counts]

end Saved

end SamosaChat.Jobs
