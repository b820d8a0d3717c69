import Mathlib.Data.List.Basic

set_option autoImplicit false

namespace SamosaChat.Spaced

variable {α : Type} {blank : α → Bool}

def pieces (blank : α → Bool) (text : List α) : List (List α) :=
  (text.splitOnP blank).filter fun piece => !piece.isEmpty

def joined (mark : α) (words : List (List α)) : List α :=
  [mark].intercalate words

def Solid (blank : α → Bool) (word : List α) : Prop :=
  word ≠ [] ∧ ∀ c ∈ word, blank c = false

theorem split_inside (text : List α) : ∀ piece ∈ text.splitOnP blank, ∀ c ∈ piece, blank c = false ∧ c ∈ text := by
  induction text with
  | nil =>
    intro piece among c inside
    rw [List.splitOnP_nil, List.mem_singleton] at among
    rw [among] at inside
    cases inside
  | cons d rest ih =>
    intro piece among c inside
    rw [List.splitOnP_cons_eq_if_modifyHead] at among
    obtain ⟨first, more, shape⟩ := List.exists_cons_of_ne_nil (List.splitOnP_ne_nil blank rest)
    rw [shape] at among ih
    have later (p : List α) (old : p ∈ first :: more) (here : c ∈ p) : blank c = false ∧ c ∈ d :: rest :=
      ⟨(ih p old c here).1, List.mem_cons_of_mem d (ih p old c here).2⟩
    by_cases mark : blank d = true
    · rw [if_pos mark] at among
      rcases List.mem_cons.mp among with rfl | old
      · cases inside
      · exact later piece old inside
    · rw [if_neg mark, List.modifyHead_cons] at among
      rcases List.mem_cons.mp among with rfl | old
      · rcases List.mem_cons.mp inside with rfl | here
        · exact ⟨Bool.eq_false_iff.mpr mark, List.mem_cons_self⟩
        · exact later first List.mem_cons_self here
      · exact later piece (List.mem_cons_of_mem first old) inside

theorem pieces_solid {text piece : List α} (among : piece ∈ pieces blank text) : Solid blank piece ∧ ∀ c ∈ piece, c ∈ text := by
  obtain ⟨split, some_⟩ := List.mem_filter.mp among
  have inside := split_inside text piece split
  refine ⟨⟨fun empty => ?_, fun c here => (inside c here).1⟩, fun c here => (inside c here).2⟩
  rw [empty] at some_
  cases some_

variable {mark : α} {word : List α} {words : List (List α)}

theorem pieces_single (solid : Solid blank word) : pieces blank word = [word] := by
  have some_ : (!word.isEmpty) = true := by simpa using solid.1
  rw [pieces, List.splitOnP_eq_singleton solid.2]
  exact List.filter_cons_of_pos some_

theorem pieces_append (apart : blank mark = true) (before after : List α) :
    pieces blank (before ++ mark :: after) = pieces blank before ++ pieces blank after := by
  rw [pieces, List.splitOnP_append_cons before after apart, List.filter_append]
  rfl

theorem joined_cons (more : words ≠ []) : joined mark (word :: words) = word ++ mark :: joined mark words := by
  rw [joined, List.intercalate_cons_of_ne_nil more, List.append_assoc]
  rfl

theorem pieces_joined (apart : blank mark = true) (solid : ∀ word ∈ words, Solid blank word) :
    pieces blank (joined mark words) = words := by
  induction words with
  | nil => rfl
  | cons word words ih =>
    obtain ⟨first, others⟩ := List.forall_mem_cons.mp solid
    by_cases more : words = []
    · rw [more, joined, List.intercalate_singleton, pieces_single first]
    · rw [joined_cons more, pieces_append apart, pieces_single first, ih others, List.singleton_append]

theorem joined_concat (more : words ≠ []) : joined mark (words ++ [word]) = joined mark words ++ mark :: word := by
  induction words with
  | nil => exact absurd rfl more
  | cons first words ih =>
    rw [List.cons_append, joined_cons (by simp)]
    by_cases others : words = []
    · rw [others, List.nil_append, joined, joined, List.intercalate_singleton, List.intercalate_singleton]
    · rw [joined_cons others, ih others, List.append_assoc, List.cons_append]

theorem joined_empty (solid : ∀ word ∈ words, word ≠ []) : joined mark words = [] ↔ words = [] := by
  constructor
  · intro empty
    cases words with
    | nil => rfl
    | cons word words =>
      by_cases more : words = []
      · rw [more, joined, List.intercalate_singleton] at empty
        exact absurd empty (solid word List.mem_cons_self)
      · rw [joined_cons more] at empty
        simp at empty
  · rintro rfl
    rfl

end SamosaChat.Spaced
