import SamosaChat.Lib.Decimal

set_option autoImplicit false

namespace SamosaChat.Decimal

open Utf8 Text

-- A %d of sscanf: what does not fit a long is clamped, and of the long the low 32 bits are kept.
def scanInt (text : Bytes) : Option (Int × Bytes) :=
  let read := numeral text
  if read.digits = [] then none
  else some ((max (-2 ^ 63) (min (2 ^ 63 - 1) read.value)).bmod (2 ^ 32), read.rest)

def scanLiteral (literal : String) (text : Bytes) : Option Bytes :=
  if (utf8 literal).isPrefixOf text then some (text.drop (utf8 literal).length) else none

def atoi (text : Bytes) : Int :=
  ((scanInt text).map Prod.fst).getD 0

end SamosaChat.Decimal

namespace SamosaChat.Text

open Utf8

def afterLast (mark : UInt8) (text : Bytes) : Bytes :=
  (text.reverse.takeWhile (· ≠ mark)).reverse

def beforeLast (mark : UInt8) (text : Bytes) : Bytes :=
  text.take (text.length - (afterLast mark text).length - 1)

def pieces (mark : UInt8) : Bytes → List Bytes
  | [] => []
  | c :: rest =>
    if c = mark then [] :: pieces mark rest
    else
      match pieces mark rest with
      | [] => [[c]]
      | first :: more => (c :: first) :: more

def lines (text : Bytes) : List Bytes :=
  pieces 0x0a text

theorem pieces_cut {mark : UInt8} {before : Bytes} (none_ : mark ∉ before) (after : Bytes) :
    pieces mark (before ++ mark :: after) = before :: pieces mark after := by
  induction before with
  | nil => rw [List.nil_append, pieces, if_pos rfl]
  | cons c before ih =>
    obtain ⟨other, later⟩ := List.ne_and_not_mem_of_not_mem_cons none_
    rw [List.cons_append, pieces, if_neg (Ne.symm other), ih later]

def startsWith (word : String) (text : Bytes) : Bool :=
  ((utf8 word).map toLower).isPrefixOf (text.map toLower)

def skipBlanks (text : Bytes) : Bytes :=
  text.dropWhile fun c => c == 0x20 || c == 0x09

section Last

variable {mark : UInt8} {after text : Bytes}

theorem after_last_cut (before : Bytes) (none_ : mark ∉ after) : afterLast mark (before ++ mark :: after) = after := by
  have pass : ∀ c ∈ after.reverse, decide (c ≠ mark) = true := by
    intro c inside
    rw [decide_eq_true_eq]
    rintro rfl
    exact none_ (List.mem_reverse.mp inside)
  rw [afterLast, List.reverse_append, List.reverse_cons, List.append_assoc, List.takeWhile_append_of_pos pass,
    List.singleton_append, List.takeWhile_cons_of_neg (by simp), List.append_nil, List.reverse_reverse]

theorem before_last_cut (before : Bytes) (none_ : mark ∉ after) : beforeLast mark (before ++ mark :: after) = before := by
  rw [beforeLast, after_last_cut before none_, List.length_append, List.length_cons]
  exact List.take_left' (by omega)

theorem last_found (inside : mark ∈ text) : ∃ before after, text = before ++ mark :: after ∧ mark ∉ after ∧
    beforeLast mark text = before ∧ afterLast mark text = after := by
  obtain ⟨after, before, shape, none_⟩ := List.eq_append_cons_of_mem (List.mem_reverse.mpr inside)
  have text_ : text = before.reverse ++ mark :: after.reverse := by
    rw [← List.reverse_reverse text, shape]
    simp
  have clean : mark ∉ after.reverse := fun inside => none_ (List.mem_reverse.mp inside)
  refine ⟨before.reverse, after.reverse, text_, clean, ?_, ?_⟩
  · rw [text_]
    exact before_last_cut _ clean
  · rw [text_]
    exact after_last_cut _ clean

end Last

end SamosaChat.Text
