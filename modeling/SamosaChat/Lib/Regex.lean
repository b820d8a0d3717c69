import Mathlib.Data.List.Basic

set_option autoImplicit false

namespace SamosaChat.Regex

inductive Pattern (α : Type)
  | empty
  | one (p : α → Bool)
  | seq (r s : Pattern α)
  | alt (r s : Pattern α)
  | star (r : Pattern α)
  | notAhead (r : Pattern α)

namespace Pattern

variable {α : Type}

def opt (r : Pattern α) : Pattern α :=
  .alt r .empty

def plus (r : Pattern α) : Pattern α :=
  .seq r (.star r)

def starEnds (ends : List α → List (List α)) : Nat → List α → List (List α)
  | 0, xs => [xs]
  | rounds + 1, xs => ((ends xs).filter fun rest => decide (rest.length < xs.length)).flatMap (starEnds ends rounds) ++ [xs]

-- What is left behind each match that begins here, in the order in which a backtracking matcher comes to them:
-- the left alternative first, and a repetition as often as it can be.
def ends : Pattern α → List α → List (List α)
  | .empty, xs => [xs]
  | .one _, [] => []
  | .one p, x :: xs => if p x then [xs] else []
  | .seq r s, xs => (r.ends xs).flatMap s.ends
  | .alt r s, xs => r.ends xs ++ s.ends xs
  | .star r, xs => starEnds r.ends xs.length xs
  | .notAhead r, xs => if r.ends xs = [] then [xs] else []

def first (r : Pattern α) (xs : List α) : Option (List α) :=
  (r.ends xs).head?

def successive (r : Pattern α) : Nat → List α → List (List α)
  | 0, _ => []
  | _, [] => []
  | rounds + 1, x :: xs =>
    match r.first (x :: xs) with
    | some rest =>
      if rest.length < (x :: xs).length then
        (x :: xs).take ((x :: xs).length - rest.length) :: successive r rounds rest
      else successive r rounds xs
    | none => successive r rounds xs

def found (r : Pattern α) (xs : List α) : List (List α) :=
  r.successive xs.length xs

variable {r s : Pattern α} {p q : α → Bool} {x : α} {xs rest : List α}

theorem ends_empty : (empty : Pattern α).ends xs = [xs] :=
  rfl

theorem ends_one_cons : (one p).ends (x :: xs) = if p x then [xs] else [] :=
  rfl

theorem ends_seq : (seq r s).ends xs = (r.ends xs).flatMap s.ends :=
  rfl

theorem ends_alt : (alt r s).ends xs = r.ends xs ++ s.ends xs :=
  rfl

theorem ends_not_ahead : (notAhead r).ends xs = if r.ends xs = [] then [xs] else [] :=
  rfl

theorem first_one_cons : (one p).first (x :: xs) = if p x then some xs else none := by
  rw [first, ends_one_cons]
  split_ifs <;> rfl

theorem first_alt : (alt r s).first xs = (r.first xs).or (s.first xs) :=
  List.head?_append

theorem first_seq : (seq r s).first xs = (r.ends xs).findSome? s.first :=
  List.head?_flatMap

theorem first_one_seq_cons : (seq (one p) r).first (x :: xs) = if p x then r.first xs else none := by
  rw [first_seq, ends_one_cons]
  split_ifs with fits
  · exact List.findSome?_singleton
  · rfl

theorem first_opt_seq : (seq (opt r) s).first xs = ((seq r s).first xs).or (s.first xs) := by
  rw [first_seq, opt, ends_alt, ends_empty, List.findSome?_append, first_seq, List.findSome?_singleton]

theorem first_not_ahead : (notAhead r).first xs = if r.first xs = none then some xs else none := by
  rw [first, first, ends_not_ahead]
  cases r.ends xs <;> rfl

def runEnds (p : α → Bool) : List α → List (List α)
  | [] => [[]]
  | x :: xs => if p x then runEnds p xs ++ [x :: xs] else [x :: xs]

theorem star_one_ends (p : α → Bool) (xs : List α) : (star (one p)).ends xs = runEnds p xs := by
  have rounds (n : Nat) : ∀ xs : List α, xs.length = n → starEnds (one p).ends n xs = runEnds p xs := by
    induction n with
    | zero =>
      intro xs none_
      rw [List.length_eq_zero_iff.mp none_]
      rfl
    | succ n ih =>
      intro xs size
      cases xs with
      | nil => cases size
      | cons x xs =>
        have size' := Nat.succ.inj size
        rw [starEnds, ends_one_cons, runEnds]
        split_ifs with fits
        · simp [ih xs size']
        · rfl
  exact rounds xs.length xs rfl

theorem run_ends_ne_nil (p : α → Bool) (xs : List α) : runEnds p xs ≠ [] := by
  cases xs with
  | nil => exact List.cons_ne_nil _ _
  | cons x xs =>
    rw [runEnds]
    split_ifs
    · exact List.append_ne_nil_of_right_ne_nil _ (List.cons_ne_nil _ _)
    · exact List.cons_ne_nil _ _

theorem run_ends_head (p : α → Bool) (xs : List α) : (runEnds p xs).head? = some (xs.dropWhile p) := by
  induction xs with
  | nil => rfl
  | cons x xs ih =>
    rw [runEnds, List.dropWhile_cons]
    split_ifs
    · rw [List.head?_append, ih]
      rfl
    · rfl

theorem first_run (p : α → Bool) (xs : List α) : (star (one p)).first xs = some (xs.dropWhile p) := by
  rw [first, star_one_ends, run_ends_head]

theorem first_plus_cons : (plus (one p)).first (x :: xs) = if p x then some (xs.dropWhile p) else none := by
  rw [plus, first_one_seq_cons, first_run]

theorem plus_one_ends : (plus (one p)).ends (x :: xs) = if p x then runEnds p xs else [] := by
  rw [plus, ends_seq, ends_one_cons, ← star_one_ends]
  split_ifs
  · exact List.flatMap_singleton ..
  · rfl

theorem first_run_seq (always : ∀ xs, (s.first xs).isSome = true) (p : α → Bool) (xs : List α) :
    (seq (star (one p)) s).first xs = s.first (xs.dropWhile p) := by
  have head := run_ends_head p xs
  rw [first_seq, star_one_ends]
  cases shape : runEnds p xs with
  | nil => exact absurd shape (run_ends_ne_nil p xs)
  | cons longest others =>
    rw [shape] at head
    cases head
    obtain ⟨rest, goes⟩ := Option.isSome_iff_exists.mp (always (xs.dropWhile p))
    rw [List.findSome?_cons, goes]

theorem first_plus_seq_cons (always : ∀ xs, (s.first xs).isSome = true) :
    (seq (plus (one p)) s).first (x :: xs) = if p x then s.first (xs.dropWhile p) else none := by
  rw [first_seq, plus_one_ends]
  split_ifs
  · rw [← first_run_seq always, first_seq, star_one_ends]
  · rfl

end Pattern

end SamosaChat.Regex
