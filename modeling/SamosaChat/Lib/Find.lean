import SamosaChat.Lib.Text

set_option autoImplicit false

namespace SamosaChat.Text

open Utf8

variable {needle text shorter : Bytes} {k : Nat}

theorem find_some (found : find needle text = some k) :
    needle <+: text.drop k ∧ k ≤ text.length ∧ ∀ j < k, ¬needle <+: text.drop j := by
  induction text generalizing k with
  | nil =>
    rw [find] at found
    split_ifs at found with empty
    cases found
    exact ⟨by rw [empty]; exact List.nil_prefix, Nat.le_refl _, fun j less => absurd less (Nat.not_lt_zero j)⟩
  | cons c rest ih =>
    rw [find] at found
    split_ifs at found with front
    · cases found
      exact ⟨List.isPrefixOf_iff_prefix.mp front, Nat.zero_le _, fun j less => absurd less (Nat.not_lt_zero j)⟩
    · obtain ⟨i, later, rfl⟩ := Option.map_eq_some_iff.mp found
      obtain ⟨here, inside, first⟩ := ih later
      refine ⟨here, Nat.succ_le_succ inside, fun j less => ?_⟩
      cases j with
      | zero => exact fun start => front (List.isPrefixOf_iff_prefix.mpr start)
      | succ j => exact first j (Nat.lt_of_succ_lt_succ less)

theorem find_none (missed : find needle text = none) (j : Nat) (inside : j ≤ text.length) : ¬needle <+: text.drop j := by
  induction text generalizing j with
  | nil =>
    rw [find] at missed
    split_ifs at missed with empty
    intro start
    rw [List.drop_nil] at start
    exact empty (List.prefix_nil.mp start)
  | cons c rest ih =>
    rw [find] at missed
    split_ifs at missed with front
    cases j with
    | zero => exact fun start => front (List.isPrefixOf_iff_prefix.mpr start)
    | succ j => exact ih (Option.map_eq_none_iff.mp missed) j (Nat.le_of_succ_le_succ inside)

theorem find_of_first (here : needle <+: text.drop k) (inside : k ≤ text.length)
    (first : ∀ j < k, ¬needle <+: text.drop j) : find needle text = some k := by
  cases found : find needle text with
  | none => exact absurd here (find_none found k inside)
  | some i =>
    obtain ⟨there, _, before⟩ := find_some found
    rcases Nat.lt_trichotomy i k with less | same | more
    · exact absurd there (first i less)
    · rw [same]
    · exact absurd here (before k more)

theorem found_length (found : find needle text = some k) : k + needle.length ≤ text.length := by
  obtain ⟨here, inside, _⟩ := find_some found
  have size := here.length_le
  rw [List.length_drop] at size
  omega

theorem find_longer (start : shorter <+: text) (found : find needle shorter = some k) : find needle text = some k := by
  obtain ⟨rest, rfl⟩ := start
  have room := found_length found
  obtain ⟨here, inside, first⟩ := find_some found
  refine find_of_first ?_ (by rw [List.length_append]; omega) fun j less there => first j less ?_
  · rw [List.drop_append_of_le_length inside]
    exact here.trans (List.prefix_append _ _)
  · rw [List.drop_append_of_le_length (by omega)] at there
    exact List.prefix_of_prefix_length_le there (List.prefix_append _ _) (by rw [List.length_drop]; omega)

theorem cstr_start (bytes : Bytes) : cstr bytes <+: bytes :=
  List.takeWhile_prefix _

theorem cstr_append {bytes : Bytes} (text : (0 : UInt8) ∉ bytes) (rest : Bytes) : cstr (bytes ++ rest) = bytes ++ cstr rest := by
  unfold cstr
  exact List.takeWhile_append_of_pos fun c inside => by
    simp only [decide_eq_true_eq]
    rintro rfl
    exact text inside

theorem cstr_mono (start : shorter <+: text) : cstr shorter <+: cstr text := by
  obtain ⟨rest, rfl⟩ := start
  induction shorter with
  | nil => exact List.nil_prefix
  | cons c shorter ih =>
    unfold cstr at ih ⊢
    rw [List.cons_append, List.takeWhile_cons, List.takeWhile_cons]
    split_ifs
    · exact (List.cons_prefix_cons).mpr ⟨rfl, ih⟩
    · exact List.nil_prefix

def fold (text : Bytes) : Bytes :=
  text.map toLower

-- The places that a loop over strstr, or over strcasestr, visits.

def hits (needle text : Bytes) : List Nat :=
  (List.range (text.length + 1)).filter fun i => needle.isPrefixOf (text.drop i)

def foldHits (needle text : Bytes) : List Nat :=
  hits (fold needle) (fold text)

theorem mem_hits {i : Nat} : i ∈ hits needle text ↔ ∃ before after, text = before ++ needle ++ after ∧ before.length = i := by
  have range : i ∈ hits needle text ↔ i ≤ text.length ∧ needle <+: text.drop i := by
    simp [hits, List.isPrefixOf_iff_prefix, Nat.lt_succ_iff]
  rw [range]
  constructor
  · rintro ⟨short, after, shape⟩
    refine ⟨text.take i, after, ?_, by rw [List.length_take]; omega⟩
    rw [List.append_assoc, shape, List.take_append_drop]
  · rintro ⟨before, after, rfl, rfl⟩
    refine ⟨by simp, after, ?_⟩
    rw [List.append_assoc, List.drop_left]

theorem fold_length {inner part : Bytes} (same : fold inner = fold part) : inner.length = part.length := by
  simpa [fold] using congrArg List.length same

theorem mem_fold_hits {i : Nat} : i ∈ foldHits needle text ↔
      ∃ before inner after, text = before ++ inner ++ after ∧ before.length = i ∧ fold inner = fold needle := by
  rw [foldHits, mem_hits]
  constructor
  · rintro ⟨before, after, shape, rfl⟩
    obtain ⟨front, after', rfl, first, rfl⟩ := List.map_eq_append_iff.mp shape
    obtain ⟨before', inner, rfl, rfl, same⟩ := List.map_eq_append_iff.mp first
    exact ⟨before', inner, after', rfl, by simp, same⟩
  · rintro ⟨before, inner, after, rfl, rfl, same⟩
    exact ⟨fold before, fold after, by rw [← same]; simp [fold], by simp [fold]⟩

end SamosaChat.Text
