import SamosaChat.Json.RoundTrip
import SamosaChat.Lib.Utf8Repair

set_option autoImplicit false

namespace SamosaChat.Http

open Utf8 Text Json

def escapeUnit (c : UInt8) : Bytes :=
  if c = 0x22 then utf8 "\\\""
  else if c = 0x5c then utf8 "\\\\"
  else if c = 0x0a then utf8 "\\n"
  else if c = 0x0d then utf8 "\\r"
  else if c = 0x09 then utf8 "\\t"
  else if c < 0x20 then utf8 "\\u00" ++ [hexDigit (c >>> 4), hexDigit (c &&& 15)]
  else [c]

def escapeUnits (cap : Nat) (out : Bytes) : Bytes → Bytes
  | [] => out
  | c :: rest => if out.length + (escapeUnit c).length + 1 > cap then out else escapeUnits cap (out ++ escapeUnit c) rest

-- The buffer as it is written, with its terminator, and the count returned.
def samosaJsonEscape (cap : Nat) (value : Bytes) : Bytes × Nat :=
  let out := escapeUnits cap [] value
  (if 0 < cap then out ++ [0] else out, out.length)

def unitWidth (c : UInt8) : Nat :=
  if c = 0x22 ∨ c = 0x5c ∨ c = 0x0a ∨ c = 0x0d ∨ c = 0x09 then 2 else if c < 0x20 then 6 else 1

def escapedSize (text : Bytes) : Nat :=
  (text.map unitWidth).sum

theorem escape_unit_facts (c : UInt8) :
    (escapeUnit c).length = unitWidth c ∧ 0 < unitWidth c ∧ (c < 0x80 → ∀ d ∈ escapeUnit c, d.toNat < 0x80) ∧
      (¬c < 0x80 → escapeUnit c = [c]) := by
  revert c
  exact every_byte (by decide +kernel)

theorem escaped_size_eq (text : Bytes) : (text.flatMap escapeUnit).length = escapedSize text := by
  induction text with
  | nil => rfl
  | cons c rest ih =>
    rw [List.flatMap_cons, List.length_append, ih, (escape_unit_facts c).1]
    rfl

theorem escaped_size_append (first second : Bytes) : escapedSize (first ++ second) = escapedSize first + escapedSize second := by
  rw [← escaped_size_eq, ← escaped_size_eq, ← escaped_size_eq, List.flatMap_append, List.length_append]

theorem escaped_size_mono {text : Bytes} {j k : Nat} (le : j ≤ k) : escapedSize (text.take j) ≤ escapedSize (text.take k) := by
  obtain ⟨more, whole⟩ := List.take_prefix_take_left le (l := text)
  rw [← whole, escaped_size_append]
  exact Nat.le_add_right _ _

structure Kept (cap : Nat) (value : Bytes) (k : Nat) : Prop where
  inside : k ≤ value.length
  fits : escapedSize (value.take k) < cap
  longest : k < value.length → cap ≤ escapedSize (value.take (k + 1))

theorem kept_unique {cap j k : Nat} {value : Bytes} (left : Kept cap value j) (right : Kept cap value k) : j = k := by
  have order {a b : Nat} (first : Kept cap value a) (second : Kept cap value b) : ¬a < b := by
    intro less
    have crossed := first.longest (Nat.lt_of_lt_of_le less second.inside)
    have grown := @escaped_size_mono value (a + 1) b less
    have := second.fits
    omega
  exact Nat.le_antisymm (Nat.le_of_not_lt (order right left)) (Nat.le_of_not_lt (order left right))

theorem escape_units_kept {cap : Nat} (value : Bytes) : ∀ done : Bytes, escapedSize done < cap →
      ∃ k, escapeUnits cap (done.flatMap escapeUnit) value = (done ++ value.take k).flatMap escapeUnit ∧
        k ≤ value.length ∧ escapedSize (done ++ value.take k) < cap ∧
        (k < value.length → cap ≤ escapedSize (done ++ value.take (k + 1))) := by
  induction value with
  | nil =>
    intro done fits
    refine ⟨0, ?_, Nat.le_refl _, ?_, fun less => absurd less (Nat.lt_irrefl _)⟩
    · rw [escapeUnits, List.take_nil, List.append_nil]
    · rwa [List.take_nil, List.append_nil]
  | cons c rest ih =>
    intro done fits
    have one : escapedSize [c] = (escapeUnit c).length := (escape_unit_facts c).1.symm
    rw [escapeUnits, escaped_size_eq]
    by_cases full : escapedSize done + (escapeUnit c).length + 1 > cap
    · rw [if_pos full]
      refine ⟨0, ?_, Nat.zero_le _, ?_, fun _ => ?_⟩
      · rw [List.take_zero, List.append_nil]
      · rwa [List.take_zero, List.append_nil]
      · rw [escaped_size_append, List.take_succ_cons, List.take_zero, one]
        omega
    · rw [if_neg full]
      have joined : done.flatMap escapeUnit ++ escapeUnit c = (done ++ [c]).flatMap escapeUnit := by
        rw [List.flatMap_append, List.flatMap_singleton]
      rw [joined]
      obtain ⟨k, written, inside, most, longest⟩ := ih (done ++ [c]) (by rw [escaped_size_append, one]; omega)
      rw [List.append_assoc, List.singleton_append] at written most longest
      refine ⟨k + 1, written, Nat.succ_le_succ inside, most, fun less => ?_⟩
      exact longest (Nat.lt_of_succ_lt_succ less)

theorem json_escape_kept {cap : Nat} (some_ : 0 < cap) (value : Bytes) : ∃ k, Kept cap value k ∧
      samosaJsonEscape cap value = ((value.take k).flatMap escapeUnit ++ [0], escapedSize (value.take k)) := by
  obtain ⟨k, written, inside, fits, longest⟩ := @escape_units_kept cap value [] some_
  rw [List.flatMap_nil, List.nil_append] at written
  refine ⟨k, ⟨inside, fits, longest⟩, ?_⟩
  rw [samosaJsonEscape, written, if_pos some_, escaped_size_eq]

theorem decodes_units {text s bytes rest : Bytes} (later : Decodes s bytes rest) :
    Decodes (text.flatMap escapeUnit ++ s) (text ++ bytes) rest := by
  induction text with
  | nil => exact later
  | cons c text ih =>
    rw [List.flatMap_cons, List.append_assoc, List.cons_append]
    unfold escapeUnit
    split_ifs with quote backslash lf cr ht control
    · subst quote
      exact decodes_escape (e := 0x22) (by decide) ih
    · subst backslash
      exact decodes_escape (e := 0x5c) (by decide) ih
    · subst lf
      exact decodes_escape (e := 0x6e) (by decide) ih
    · subst cr
      exact decodes_escape (e := 0x72) (by decide) ih
    · subst ht
      exact decodes_escape (e := 0x74) (by decide) ih
    · exact decodes_control control ih
    · refine @decodes_plain [c] _ _ _ (fun d inside => ?_) ih
      rw [List.mem_singleton.mp inside]
      exact ⟨quote, backslash⟩

theorem units_parsed {text : Bytes} (clean : (0 : UInt8) ∉ text) :
    jParseStrRaw (0x22 :: text.flatMap escapeUnit ++ [0x22]) = .ok (text, []) := by
  have loop := @decodes_units text _ _ _ (decodes_quote [])
  rw [List.append_nil] at loop
  unfold jParseStrRaw advance
  rw [if_pos (by simp)]
  change ((stringLoop ((text.flatMap escapeUnit ++ [0x22]).length + 1) (text.flatMap escapeUnit ++ [0x22])).bind fun out =>
    .ok (cstr out.1, out.2)) = _
  rw [loop _ (Nat.lt_succ_self _)]
  exact congrArg (fun text => Except.ok (text, [])) (cstr_self clean)

theorem wide_units {text : Bytes} (wide : ∀ c ∈ text, ¬c < 0x80) : text.flatMap escapeUnit = text := by
  induction text with
  | nil => rfl
  | cons c rest ih =>
    rw [List.flatMap_cons, ih fun d inside => wide d (List.mem_cons_of_mem _ inside),
      (escape_unit_facts c).2.2.2 (wide c List.mem_cons_self)]
    rfl

theorem units_valid {text : Bytes} (valid : Valid text) : Valid (text.flatMap escapeUnit) := by
  induction text using characters with
  | nil => exact valid_nil
  | character text code width decoded ih =>
    obtain ⟨code', width', decoded', later⟩ := valid_step valid (by rintro rfl; cases decoded)
    cases decoded.symm.trans decoded'
    rw [← List.take_append_drop width text, List.flatMap_append]
    refine valid_append ?_ (ih later)
    cases text with
    | nil => cases decoded
    | cons c rest =>
      by_cases small : c < 0x80
      · rw [decode_one_ascii ((first_range c).1.mp small)] at decoded
        cases decoded
        rw [List.take_succ_cons, List.take_zero, List.flatMap_singleton]
        exact ascii_valid ((escape_unit_facts c).2.2.1 small)
      · have wide : ∀ d ∈ (c :: rest).take width, ¬d < 0x80 := by
          intro d inside low
          have bound := decoded_wide small decoded inside
          have := (first_range d).1.mp low
          omega
        rw [wide_units wide]
        obtain ⟨scalar, size, after, shape⟩ := decode_one_starts decoded
        rw [← shape, size, List.take_left]
        exact valid_sequence scalar
  | malformed c rest decoded ih =>
    obtain ⟨code, width, decoded', _⟩ := valid_step valid (by simp)
    cases decoded.symm.trans decoded'

-- What a bounded escape should leave: whole escapes of a prefix that ends between characters.
def WellEscaped (cap : Nat) (value : Bytes) : Prop :=
  ∃ out kept, samosaJsonEscape cap value = (out ++ [0], out.length) ∧ out.length < cap ∧
    out = kept.flatMap escapeUnit ∧ Valid out ∧ Valid kept ∧ kept <+: value ∧
    jParseStrRaw (0x22 :: out ++ [0x22]) = .ok (kept, []) ∧ (escapedSize value < cap → kept = value)

def CutsClean (cap : Nat) (value : Bytes) : Prop :=
  ∀ k c, value[k]? = some c → escapedSize (value.take k) < cap → cap ≤ escapedSize (value.take (k + 1)) → isTail c = false

theorem json_escape_clean {cap : Nat} {value : Bytes} (some_ : 1 ≤ cap) (text : StringText value) :
    WellEscaped cap value ↔ CutsClean cap value := by
  obtain ⟨k, kept, written⟩ := json_escape_kept some_ value
  constructor
  · rintro ⟨out, prefix_, written', short, rfl, _, valid, inside, parsed, _⟩ j c here fits crossed
    have less : j < value.length := (List.getElem?_eq_some_iff.mp here).1
    have same : j = k := kept_unique ⟨Nat.le_of_lt less, fits, fun _ => crossed⟩ kept
    subst same
    have clean_ : (0 : UInt8) ∉ value.take j := fun inside => text.2 (List.mem_of_mem_take inside)
    have out := List.append_cancel_right (Prod.mk.inj (written.symm.trans written')).1
    have decoded := units_parsed clean_
    rw [out] at decoded
    cases decoded.symm.trans parsed
    have whole := text.1
    rw [← List.take_append_drop j value] at whole
    exact valid_head (valid_rest whole valid) c (by rw [List.head?_drop, here]; rfl)
  · intro clean
    have valid : Valid (value.take k) := by
      by_cases less : k < value.length
      · have whole := text.1
        rw [← List.take_append_drop k value] at whole
        refine (valid_cut whole fun c head => ?_).1
        rw [List.head?_drop] at head
        exact clean k c head kept.fits (kept.longest less)
      · rw [List.take_of_length_le (by omega)]
        exact text.1
    have clean_ : (0 : UInt8) ∉ value.take k := fun inside => text.2 (List.mem_of_mem_take inside)
    refine ⟨(value.take k).flatMap escapeUnit, value.take k, ?_, ?_, rfl, units_valid valid, valid, List.take_prefix k value,
      units_parsed clean_, fun fits => ?_⟩
    · rw [written, escaped_size_eq]
    · rw [escaped_size_eq]
      exact kept.fits
    · have whole : Kept cap value value.length := ⟨Nat.le_refl _, by rwa [List.take_length], fun less => absurd less (Nat.lt_irrefl _)⟩
      rw [kept_unique kept whole, List.take_length]

theorem quoted_letter_escapes : WellEscaped 8 (utf8 "a\"" ++ [0xc3, 0xa9]) ↔ CutsClean 8 (utf8 "a\"" ++ [0xc3, 0xa9]) :=
  json_escape_clean (by decide) ⟨⟨[0x61, 0x22, 0xe9], by decide, by decide⟩, by decide⟩

-- One byte of the letter fits, and is written.
theorem accent_torn : StringText [0xc3, 0xa9] ∧ ¬WellEscaped 2 [0xc3, 0xa9] := by
  refine ⟨⟨⟨[0xe9], by decide, by decide⟩, by decide⟩, ?_⟩
  rintro ⟨out, kept, written, _, _, valid, _⟩
  have torn : samosaJsonEscape 2 [0xc3, 0xa9] = ([0xc3] ++ [0], 1) := by decide
  cases List.append_cancel_right (Prod.mk.inj (torn.symm.trans written)).1
  obtain ⟨code, width, decoded, _⟩ := valid_step valid (by decide)
  exact absurd decoded (by rw [show decodeOne [0xc3] = none from by decide]; exact fun some_ => by cases some_)

end SamosaChat.Http
