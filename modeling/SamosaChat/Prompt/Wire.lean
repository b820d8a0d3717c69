import SamosaChat.Json.Members
import SamosaChat.Prompt.Budget

set_option autoImplicit false

namespace SamosaChat.Prompt

open Utf8 Text Json

theorem quoted_parsed {text : Bytes} (clean : (0 : UInt8) ∉ text) : jsonParse (quoted text) = .ok (.str (lossy text), []) := by
  have shape : quoted text = 0x22 :: (escaped text ++ [0x22]) := by
    rw [quoted, text_json_string_eq]
    rfl
  have visible : Visible (quoted text) := by
    rw [shape]
    exact quoted_visible text
  have raw : jParseStrRaw (0x22 :: (escaped text ++ [0x22])) = .ok (lossy text, []) := by
    have loop := decodes_lossy text.length text [] (Nat.le_refl _)
    unfold jParseStrRaw advance
    rw [if_pos (by simp)]
    change ((stringLoop ((escaped text ++ [0x22]).length + 1) (escaped text ++ [0x22])).bind fun out =>
      .ok (cstr out.1, out.2)) = _
    rw [escaped, loop _ (Nat.lt_succ_self _)]
    exact congrArg (fun text => Except.ok (text, [])) (cstr_self (lossy_clean clean))
  rw [jsonParse, cstr_self (visible_text visible), shape, fuelFor, parse_val_head _ (by decide), if_pos rfl, raw]
  rfl

theorem wire_text_eq {text : Bytes} (clean : (0 : UInt8) ∉ text) : promptWireText text = .ok (some (lossy text)) := by
  rw [promptWireText, quoted_parsed clean]
  rfl

theorem find_between (before text after : Bytes) : (Text.find text (before ++ text ++ after)).isSome := by
  rw [Option.isSome_iff_ne_none]
  intro missed
  refine find_none missed before.length (by simp) ?_
  rw [List.append_assoc, List.drop_left]
  exact List.prefix_append text after

-- The evidence is found in the parsed prompt in the form that the wire gives it.
theorem evidence_on_wire {evidence before after : Bytes} (clean : (0 : UInt8) ∉ evidence) (front : StringText before)
    (back : StringText after) :
    ∃ wire, promptWireText evidence = .ok (some wire) ∧
      jsonParse (quoted (before ++ evidence ++ after)) = .ok (.str (before ++ wire ++ after), []) ∧
      (Text.find wire (before ++ wire ++ after)).isSome ∧ Valid wire ∧ (Valid evidence → wire = evidence) ∧
      promptWireText wire = .ok (some wire) := by
  refine ⟨lossy evidence, wire_text_eq clean, ?_, find_between _ _ _, valid_lossy evidence, lossy_valid, ?_⟩
  · have whole : (0 : UInt8) ∉ before ++ evidence ++ after := by
      rw [List.mem_append, List.mem_append, not_or, not_or]
      exact ⟨⟨front.2, clean⟩, back.2⟩
    rw [quoted_parsed whole, lossy_after back.1, lossy_before front.1]
  · rw [wire_text_eq (lossy_clean clean), lossy_valid (valid_lossy evidence)]

theorem torn_evidence_on_wire :
    ∃ wire, promptWireText [0x80, 0xc3] = .ok (some wire) ∧
      jsonParse (quoted (utf8 "a" ++ [0x80, 0xc3] ++ [0xc3, 0xa9])) = .ok (.str (utf8 "a" ++ wire ++ [0xc3, 0xa9]), []) ∧
      (Text.find wire (utf8 "a" ++ wire ++ [0xc3, 0xa9])).isSome ∧ Valid wire ∧
      (Valid [0x80, 0xc3] → wire = [0x80, 0xc3]) ∧ promptWireText wire = .ok (some wire) :=
  @evidence_on_wire [0x80, 0xc3] (utf8 "a") [0xc3, 0xa9] (by decide) ⟨⟨[0x61], by decide, by decide⟩, by decide⟩
    ⟨⟨[0xe9], by decide, by decide⟩, by decide⟩

end SamosaChat.Prompt
