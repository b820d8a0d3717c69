import SamosaChat.Lib.Spaced

set_option autoImplicit false

namespace SamosaChat.Resolve

open Spaced

variable {α : Type} [DecidableEq α]

def walk (here up : List α) (place : List (List α)) (name : List α) : List (List α) :=
  if name = [] ∨ name = here then place else if name = up then place.dropLast else place ++ [name]

def resolve (mark : α) (here up : List α) (base : List (List α)) (path : List α) : List (List α) :=
  (path.splitOn mark).foldl (walk here up) base

def names (mark : α) (path : List α) : List (List α) :=
  pieces (· == mark) path

def squeeze (mark : α) : List α → List α
  | [] => []
  | c :: rest => if c = mark ∧ rest.head?.all (· = mark) then squeeze mark rest else c :: squeeze mark rest

section Ways

variable {mark : α} {here up : List α} {base : List (List α)}

theorem resolve_join (directory path : List α) :
    resolve mark here up base (directory ++ mark :: path) = resolve mark here up (resolve mark here up base directory) path := by
  unfold resolve
  rw [List.splitOn_append_cons_self, List.foldl_append]

theorem walk_plain (pieces_ : List (List α)) : ∀ place : List (List α),
    (∀ name ∈ pieces_.filter fun piece => !piece.isEmpty, name ≠ here ∧ name ≠ up) →
      pieces_.foldl (walk here up) place = place ++ pieces_.filter fun piece => !piece.isEmpty := by
  induction pieces_ with
  | nil => exact fun place _ => (List.append_nil place).symm
  | cons name rest ih =>
    intro place plain
    rw [List.foldl_cons]
    cases name with
    | nil =>
      rw [walk, if_pos (.inl rfl)]
      exact ih place plain
    | cons c name =>
      obtain ⟨⟨first, second⟩, others⟩ := List.forall_mem_cons.mp plain
      have step : walk here up place (c :: name) = place ++ [c :: name] := by
        rw [walk, if_neg (by simp [first]), if_neg second]
      rw [step, ih _ others, List.append_assoc]
      rfl

theorem resolve_plain {path : List α} (plain : ∀ name ∈ names mark path, name ≠ here ∧ name ≠ up) :
    resolve mark here up base path = base ++ names mark path := by
  unfold names pieces at plain ⊢
  unfold resolve
  rw [List.splitOn_eq_splitOnP]
  exact walk_plain _ base plain

end Ways

section Spelling

variable {mark : α}

theorem names_append (before after : List α) : names mark (before ++ mark :: after) = names mark before ++ names mark after :=
  @pieces_append α (· == mark) mark (beq_iff_eq.mpr rfl) before after

theorem names_mark (path : List α) : names mark (mark :: path) = names mark path :=
  names_append [] path

variable {c : α} {path : List α}

theorem names_alone (other : c ≠ mark) (ends : path.head?.all (· = mark)) : names mark (c :: path) = [c] :: names mark path := by
  have single : names mark [c] = [[c]] := pieces_single ⟨by simp, by simpa using other⟩
  cases path with
  | nil => exact single
  | cons d rest =>
    have same : d = mark := by simpa using ends
    have parts : names mark ([c] ++ mark :: rest) = names mark [c] ++ names mark rest := names_append [c] rest
    rw [single] at parts
    rw [same, names_mark]
    exact parts

theorem names_grows (other : c ≠ mark) (more : ¬path.head?.all (· = mark)) :
    ∃ first rest, names mark path = first :: rest ∧ names mark (c :: path) = (c :: first) :: rest := by
  cases path with
  | nil => exact absurd rfl more
  | cons d path =>
    have inner : ¬(d == mark) = true := by simpa using more
    have outer : ¬(c == mark) = true := by simpa using other
    obtain ⟨first, rest, shape⟩ := List.exists_cons_of_ne_nil (List.splitOnP_ne_nil (· == mark) path)
    have split : (d :: path).splitOnP (· == mark) = (d :: first) :: rest := by
      rw [List.splitOnP_cons_eq_if_modifyHead, shape, if_neg inner, List.modifyHead_cons]
    unfold names pieces
    rw [split, List.splitOnP_cons_eq_if_modifyHead c, split, if_neg outer]
    exact ⟨d :: first, _, rfl, rfl⟩

theorem names_some (other : c ≠ mark) : names mark (c :: path) ≠ [] := by
  by_cases ends : path.head?.all (· = mark)
  · rw [names_alone other ends]
    exact List.cons_ne_nil _ _
  · obtain ⟨first, rest, -, grown⟩ := names_grows other ends
    rw [grown]
    exact List.cons_ne_nil _ _

theorem squeeze_kept (kept : ¬(c = mark ∧ path.head?.all (· = mark))) : squeeze mark (c :: path) = c :: squeeze mark path :=
  if_neg kept

theorem squeeze_joined (path : List α) : (path.head? ≠ some mark → squeeze mark path = joined mark (names mark path)) ∧
    (path.head? = some mark → squeeze mark path = if names mark path = [] then [] else mark :: joined mark (names mark path)) := by
  induction path with
  | nil => exact ⟨fun _ => rfl, fun begins => by cases begins⟩
  | cons c rest ih =>
    obtain ⟨other, begun⟩ := ih
    refine ⟨fun plain => ?_, fun begins => ?_⟩
    · have inner : c ≠ mark := fun same => plain (congrArg some same)
      rw [squeeze_kept fun all => inner all.1]
      by_cases ends : rest.head?.all (· = mark)
      · rw [names_alone inner ends]
        cases rest with
        | nil => rfl
        | cons d rest =>
          have same : d = mark := by simpa using ends
          rw [begun (congrArg some same)]
          by_cases none_ : names mark (d :: rest) = []
          · rw [if_pos none_, none_, joined, List.intercalate_singleton]
          · rw [if_neg none_, joined_cons none_, List.singleton_append]
      · obtain ⟨first, others, behind, grown⟩ := names_grows inner ends
        have away : rest.head? ≠ some mark := by
          intro head
          rw [head] at ends
          simp at ends
        rw [other away, behind, grown]
        by_cases none_ : others = []
        · rw [none_, joined, joined, List.intercalate_singleton, List.intercalate_singleton]
        · rw [joined_cons none_, joined_cons none_, List.cons_append]
    · have same : c = mark := Option.some_inj.mp begins
      rw [same, names_mark]
      by_cases ends : rest.head?.all (· = mark)
      · rw [squeeze, if_pos ⟨rfl, ends⟩]
        cases rest with
        | nil => rfl
        | cons d rest =>
          have next : d = mark := by simpa using ends
          exact begun (congrArg some next)
      · rw [squeeze_kept fun all => ends all.2]
        cases rest with
        | nil => exact absurd rfl ends
        | cons d rest =>
          have inner : d ≠ mark := by simpa using ends
          rw [if_neg (names_some inner), other fun head => inner (Option.some_inj.mp head)]

theorem squeeze_eq_iff {path' : List α} (plain : path.head? ≠ some mark) (plain' : path'.head? ≠ some mark) :
    squeeze mark path = squeeze mark path' ↔ names mark path = names mark path' := by
  rw [(squeeze_joined path).1 plain, (squeeze_joined path').1 plain']
  constructor
  · intro same
    have apart (text : List α) : names mark (joined mark (names mark text)) = names mark text :=
      @pieces_joined α (· == mark) mark _ (beq_iff_eq.mpr rfl) fun word is => (pieces_solid is).1
    rw [← apart path, same, apart path']
  · exact congrArg (joined mark)

end Spelling

end SamosaChat.Resolve
