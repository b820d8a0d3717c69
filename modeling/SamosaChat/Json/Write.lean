import SamosaChat.Json.Value

set_option autoImplicit false

namespace SamosaChat.Json

open Utf8 Text FloatText

def hexDigit (n : UInt8) : UInt8 :=
  (utf8 "0123456789abcdef").getD n.toNat 0

def escapePart (c : UInt8) (rest : Bytes) : Bytes × Nat :=
  if c = 0x22 ∨ c = 0x5c then ([0x5c, c], 1)
  else if c = 0x0a then (utf8 "\\n", 1)
  else if c = 0x0d then (utf8 "\\r", 1)
  else if c = 0x09 then (utf8 "\\t", 1)
  else if c < 0x20 then (utf8 "\\u00" ++ [hexDigit (c >>> 4), hexDigit (c &&& 15)], 1)
  else if c < 0x80 then ([c], 1)
  else if scanWidth (c :: rest) ≠ 0 then ((c :: rest).take (scanWidth (c :: rest)), scanWidth (c :: rest))
  else ([0xef, 0xbf, 0xbd], 1)

def escapeLoop (cap : Nat) : Nat → Bytes → Bytes → Option Bytes
  | _, out, [] => some out
  | 0, _, _ :: _ => none
  | fuel + 1, out, c :: rest =>
    let (part, width) := escapePart c rest
    if out.length + part.length ≥ cap then none else escapeLoop cap fuel (out ++ part) ((c :: rest).drop width)

def jsonEscapeTo (cap : Nat) (out text : Bytes) : Option Bytes :=
  escapeLoop cap text.length out text

def textJsonString (buffer value : Bytes) : Option Bytes :=
  (jsonEscapeTo (value.length * 6 + 1) [] value).map fun escaped => buffer ++ [0x22] ++ escaped ++ [0x22]

mutual

def textJsonValue (out : Bytes) : Jval → Option Bytes
  | .null => some (out ++ utf8 "null")
  | .bool boolean => some (out ++ utf8 (if boolean then "true" else "false"))
  | .num num => some (out ++ format num)
  | .str str => textJsonString out str
  | .arr kids => (textJsonKids true (out ++ [0x5b]) kids).map (· ++ [0x5d])
  | .obj fields => (textJsonFields true (out ++ [0x7b]) fields).map (· ++ [0x7d])

def textJsonKids (first : Bool) (out : Bytes) : List Jval → Option Bytes
  | [] => some out
  | kid :: kids => (textJsonValue (if first then out else out ++ [0x2c]) kid).bind fun out => textJsonKids false out kids

def textJsonFields (first : Bool) (out : Bytes) : List (Bytes × Jval) → Option Bytes
  | [] => some out
  | (key, kid) :: fields =>
    (textJsonString (if first then out else out ++ [0x2c]) key).bind fun out =>
      (textJsonValue (out ++ [0x3a]) kid).bind fun out => textJsonFields false out fields

end

def escapedFrom : Nat → Bytes → Bytes
  | 0, _ => []
  | _ + 1, [] => []
  | fuel + 1, c :: rest =>
    (escapePart c rest).1 ++ escapedFrom fuel ((c :: rest).drop (escapePart c rest).2)

def escaped (text : Bytes) : Bytes :=
  escapedFrom text.length text

theorem escape_part_width (c : UInt8) (rest : Bytes) : 0 < (escapePart c rest).2 ∧ (escapePart c rest).2 ≤ rest.length + 1 ∧
      (escapePart c rest).1.length ≤ 6 * (escapePart c rest).2 := by
  have most : scanWidth (c :: rest) ≤ rest.length + 1 := by
    rw [scan_width_eq]
    cases decoded : decodeOne (c :: rest) with
    | none => exact Nat.zero_le _
    | some pair => exact (@decode_one_width _ pair.1 pair.2 decoded).2
  have newline : (utf8 "\\n").length = 2 := by decide
  have return_ : (utf8 "\\r").length = 2 := by decide
  have tab : (utf8 "\\t").length = 2 := by decide
  have code : (utf8 "\\u00").length = 4 := by decide
  unfold escapePart
  split_ifs with quote lf cr ht control ascii wide
  · simp
  · simp [newline]
  · simp [return_]
  · simp [tab]
  · simp [code]
  · simp
  · refine ⟨Nat.pos_of_ne_zero wide, most, ?_⟩
    simp only [List.length_take]
    omega
  · simp

theorem escaped_length (fuel : Nat) : ∀ text : Bytes, (escapedFrom fuel text).length ≤ 6 * text.length := by
  induction fuel with
  | zero => exact fun text => Nat.zero_le _
  | succ fuel ih =>
    intro text
    cases text with
    | nil => exact Nat.zero_le _
    | cons c rest =>
      obtain ⟨some_, inside, most⟩ := escape_part_width c rest
      have later := ih ((c :: rest).drop (escapePart c rest).2)
      rw [List.length_drop, List.length_cons] at later
      rw [escapedFrom, List.length_append, List.length_cons]
      omega

theorem escape_loop_room (cap fuel : Nat) : ∀ out text : Bytes, text.length ≤ fuel → out.length + 6 * text.length < cap →
      escapeLoop cap fuel out text = some (out ++ escapedFrom fuel text) := by
  induction fuel with
  | zero =>
    intro out text enough room
    rw [List.length_eq_zero_iff.mp (Nat.le_zero.mp enough)]
    simp [escapeLoop, escapedFrom]
  | succ fuel ih =>
    intro out text enough room
    cases text with
    | nil => simp [escapeLoop, escapedFrom]
    | cons c rest =>
      obtain ⟨some_, inside, most⟩ := escape_part_width c rest
      rw [List.length_cons] at enough room
      have size : ((c :: rest).drop (escapePart c rest).2).length = rest.length + 1 - (escapePart c rest).2 := by
        rw [List.length_drop, List.length_cons]
      rw [escapeLoop, escapedFrom]
      dsimp only
      rw [if_neg (by omega), ih _ _ (by omega) (by rw [List.length_append]; omega), List.append_assoc]

theorem text_json_string_eq (buffer value : Bytes) :
    textJsonString buffer value = some (buffer ++ 0x22 :: escaped value ++ [0x22]) := by
  rw [textJsonString, jsonEscapeTo, escape_loop_room _ _ _ _ (Nat.le_refl _) (by simp; omega)]
  simp [escaped]

end SamosaChat.Json
