import Mathlib.Data.List.Infix

set_option autoImplicit false

-- Words of a text are replaced in one pass. Each begins with a letter that is nowhere else in it, and so do the words put there.
namespace SamosaChat.Marks

variable {α : Type}

def Marked (lead : α) (word : List α) : Prop :=
  word.head? = some lead ∧ lead ∉ word.tail

structure Apart (lead : α) (table : List (List α × List α)) : Prop where
  old : ∀ entry ∈ table, Marked lead entry.1
  new : ∀ entry ∈ table, Marked lead entry.2
  apart : ∀ entry ∈ table, ∀ entry' ∈ table, ¬ entry.1 <+: entry'.2 ∧ ¬ entry'.2 <+: entry.1
  distinct : ∀ entry ∈ table, ∀ entry' ∈ table, entry.2 <+: entry'.2 → entry = entry'

variable {lead : α} {table : List (List α × List α)} {entry : List α × List α} {word new text rest : List α} {c : α}

theorem marked_shape (marked : Marked lead word) : ∃ body, word = lead :: body ∧ lead ∉ body := by
  obtain ⟨first, free⟩ := marked
  cases word with
  | nil => cases first
  | cons c body =>
    obtain rfl := Option.some.inj first
    exact ⟨body, rfl, free⟩

theorem infix_behind {front : List α} (marked : Marked lead word) (free : lead ∉ front) (inside : word <:+: front ++ rest) :
    word <:+: rest := by
  induction front with
  | nil => exact inside
  | cons c front ih =>
    rcases List.infix_cons_iff.mp inside with starts | later
    · obtain ⟨body, rfl, _⟩ := marked_shape marked
      obtain ⟨rfl, _⟩ := List.cons_prefix_cons.mp starts
      exact absurd List.mem_cons_self free
    · exact ih (fun member => free (List.mem_cons_of_mem _ member)) later

def back (table : List (List α × List α)) : List (List α × List α) :=
  table.map Prod.swap

theorem apart_back (apart : Apart lead table) (olds : ∀ entry ∈ table, ∀ entry' ∈ table, entry.1 <+: entry'.1 → entry = entry') :
    Apart lead (back table) := by
  refine ⟨?_, ?_, ?_, ?_⟩ <;> simp only [back, List.forall_mem_map, Prod.fst_swap, Prod.snd_swap]
  · exact apart.new
  · exact apart.old
  · exact fun entry inside entry' inside' => (apart.apart entry' inside' entry inside).symm
  · exact fun entry inside entry' inside' starts => congrArg Prod.swap (olds entry inside entry' inside' starts)

variable [DecidableEq α]

def entryAt (table : List (List α × List α)) (text : List α) : Option (List α × List α) :=
  table.find? fun entry => entry.1.isPrefixOf text

def rewriteFrom (table : List (List α × List α)) : Nat → List α → List α
  | _, [] => []
  | skip + 1, _ :: rest => rewriteFrom table skip rest
  | 0, c :: rest =>
    match entryAt table (c :: rest) with
    | some entry => entry.2 ++ rewriteFrom table (entry.1.length - 1) rest
    | none => c :: rewriteFrom table 0 rest

def rewrite (table : List (List α × List α)) (text : List α) : List α :=
  rewriteFrom table 0 text

theorem entry_some (found : entryAt table text = some entry) : entry ∈ table ∧ entry.1 <+: text := by
  have here := List.find?_some found
  exact ⟨List.mem_of_find?_eq_some found, List.isPrefixOf_iff_prefix.mp here⟩

theorem entry_none (missed : entryAt table text = none) (inside : entry ∈ table) : ¬ entry.1 <+: text := fun here =>
  List.find?_eq_none.mp missed entry inside (List.isPrefixOf_iff_prefix.mpr here)

theorem rewrite_from_skip (skip : Nat) : ∀ text, rewriteFrom table skip text = rewrite table (text.drop skip) := by
  induction skip with
  | zero => exact fun text => rfl
  | succ skip ih =>
    intro text
    cases text with
    | nil => rfl
    | cons c rest => exact ih rest

theorem rewrite_kept (missed : entryAt table (c :: rest) = none) : rewrite table (c :: rest) = c :: rewrite table rest := by
  rw [rewrite, rewriteFrom, missed]
  rfl

theorem rewrite_put (apart : Apart lead table) (found : entryAt table text = some entry) :
    rewrite table text = entry.2 ++ rewrite table (text.drop entry.1.length) := by
  obtain ⟨inside, here⟩ := entry_some found
  obtain ⟨body, shape, _⟩ := marked_shape (apart.old entry inside)
  cases text with
  | nil => exact absurd (List.prefix_nil.mp here) (by rw [shape]; exact List.cons_ne_nil _ _)
  | cons c rest =>
    rw [rewrite, rewriteFrom, found]
    dsimp only
    rw [rewrite_from_skip, shape]
    rfl

-- A new word begins with the letter, so that what is put out without it stood in the text.
theorem body_copied (apart : Apart lead table) {body : List α} (free : lead ∉ body) :
    ∀ text, body <+: rewrite table text → body <+: text := by
  induction body with
  | nil => exact fun text _ => List.nil_prefix
  | cons b body ih =>
    intro text starts
    cases text with
    | nil => exact starts
    | cons c rest =>
      cases found : entryAt table (c :: rest) with
      | none =>
        rw [rewrite_kept found] at starts
        obtain ⟨rfl, later⟩ := List.cons_prefix_cons.mp starts
        exact List.cons_prefix_cons.mpr ⟨rfl, ih (fun inside => free (List.mem_cons_of_mem _ inside)) rest later⟩
      | some entry =>
        obtain ⟨tail, shape, _⟩ := marked_shape (apart.new entry (entry_some found).1)
        rw [rewrite_put apart found, shape] at starts
        obtain ⟨rfl, _⟩ := List.cons_prefix_cons.mp starts
        exact absurd List.mem_cons_self free

theorem word_copied (apart : Apart lead table) (marked : Marked lead word) (starts : word <+: c :: rewrite table rest) :
    word <+: c :: rest := by
  obtain ⟨body, rfl, free⟩ := marked_shape marked
  obtain ⟨rfl, later⟩ := List.cons_prefix_cons.mp starts
  exact List.cons_prefix_cons.mpr ⟨rfl, body_copied apart free rest later⟩

theorem rewrite_free (apart : Apart lead table) (old : entry ∈ table) (rounds : Nat) :
    ∀ text, text.length ≤ rounds → ¬ entry.1 <:+: rewrite table text := by
  obtain ⟨body, shape, _⟩ := marked_shape (apart.old entry old)
  have nowhere : ¬ entry.1 <:+: [] := by simp [shape]
  induction rounds with
  | zero =>
    intro text short
    rwa [List.length_eq_zero_iff.mp (Nat.le_zero.mp short)]
  | succ rounds ih =>
    intro text short inside
    cases text with
    | nil => exact nowhere inside
    | cons c rest =>
      rw [List.length_cons] at short
      cases found : entryAt table (c :: rest) with
      | none =>
        rw [rewrite_kept found] at inside
        rcases List.infix_cons_iff.mp inside with starts | later
        · exact entry_none found old (word_copied apart (apart.old entry old) starts)
        · exact ih rest (by omega) later
      | some put =>
        obtain ⟨member, here⟩ := entry_some found
        obtain ⟨tail, new, free⟩ := marked_shape (apart.new put member)
        rw [rewrite_put apart found] at inside
        have split := inside
        rw [new, List.cons_append] at split
        rcases List.infix_cons_iff.mp split with starts | later
        · -- The old word would begin where the new one does.
          rw [← List.cons_append, ← new] at starts
          have clash := apart.apart entry old put member
          exact (List.prefix_or_prefix_of_prefix starts (List.prefix_append _ _)).elim clash.1 clash.2
        · obtain ⟨body', shape', _⟩ := marked_shape (apart.old put member)
          refine ih _ ?_ (infix_behind (apart.old entry old) free later)
          rw [List.length_drop, List.length_cons, shape', List.length_cons]
          omega

theorem rewrite_same (free : ∀ entry ∈ table, ¬ entry.1 <:+: text) : rewrite table text = text := by
  induction text with
  | nil => rfl
  | cons c rest ih =>
    cases found : entryAt table (c :: rest) with
    | none =>
      rw [rewrite_kept found, ih fun entry inside later => free entry inside (later.trans (List.suffix_cons c rest).isInfix)]
    | some entry =>
      obtain ⟨inside, here⟩ := entry_some found
      exact absurd here.isInfix (free entry inside)

theorem mem_rewrite {d : α} (text : List α) : ∀ skip, d ∈ rewriteFrom table skip text → d ∈ text ∨ ∃ entry ∈ table, d ∈ entry.2 := by
  induction text with
  | nil => exact fun skip inside => by cases skip <;> cases inside
  | cons c rest ih =>
    intro skip inside
    cases skip with
    | succ skip => exact (ih skip inside).imp_left (List.mem_cons_of_mem _)
    | zero =>
      rw [rewriteFrom] at inside
      cases found : entryAt table (c :: rest) with
      | none =>
        rw [found] at inside
        rcases List.mem_cons.mp inside with rfl | later
        · exact .inl List.mem_cons_self
        · exact (ih 0 later).imp_left (List.mem_cons_of_mem _)
      | some entry =>
        rw [found] at inside
        rcases List.mem_append.mp inside with put | later
        · exact .inr ⟨entry, (entry_some found).1, put⟩
        · exact (ih _ later).imp_left (List.mem_cons_of_mem _)

theorem entry_back (apart : Apart lead table) (inside : entry ∈ table) (rest : List α) :
    entryAt (back table) (entry.2 ++ rest) = some entry.swap := by
  have here : entry.2 <+: entry.2 ++ rest := List.prefix_append _ _
  cases found : entryAt (back table) (entry.2 ++ rest) with
  | none => exact absurd here (entry_none found (List.mem_map_of_mem inside))
  | some other =>
    obtain ⟨member, starts⟩ := entry_some found
    obtain ⟨entry', inside', rfl⟩ := List.mem_map.mp member
    rcases List.prefix_or_prefix_of_prefix starts here with one | one
    · rw [apart.distinct entry' inside' entry inside one]
    · rw [apart.distinct entry inside entry' inside' one]

theorem rewrite_restores (apart : Apart lead table) (behind : Apart lead (back table)) (rounds : Nat) :
    ∀ text, text.length ≤ rounds → (∀ entry ∈ table, ¬ entry.2 <:+: text) → rewrite (back table) (rewrite table text) = text := by
  induction rounds with
  | zero =>
    intro text short _
    rw [List.length_eq_zero_iff.mp (Nat.le_zero.mp short)]
    rfl
  | succ rounds ih =>
    intro text short free
    cases text with
    | nil => rfl
    | cons c rest =>
      rw [List.length_cons] at short
      cases found : entryAt table (c :: rest) with
      | none =>
        have missed : entryAt (back table) (c :: rewrite table rest) = none := by
          refine List.find?_eq_none.mpr fun other member starts => ?_
          obtain ⟨entry, inside, rfl⟩ := List.mem_map.mp member
          have here := word_copied apart (apart.new entry inside) (List.isPrefixOf_iff_prefix.mp starts)
          exact free entry inside here.isInfix
        rw [rewrite_kept found, rewrite_kept missed, ih rest (by omega) fun entry inside later =>
          free entry inside (later.trans (List.suffix_cons c rest).isInfix)]
      | some entry =>
        obtain ⟨inside, here⟩ := entry_some found
        obtain ⟨body, shape, _⟩ := marked_shape (apart.old entry inside)
        have later : ((c :: rest).drop entry.1.length).length ≤ rounds := by
          rw [List.length_drop, List.length_cons, shape, List.length_cons]
          omega
        rw [rewrite_put apart found, rewrite_put behind (entry_back apart inside _), Prod.fst_swap, Prod.snd_swap, List.drop_left,
          ih _ later fun entry' member deeper => free entry' member (deeper.trans (List.drop_suffix _ _).isInfix)]
        exact List.prefix_iff_eq_append.mp here

end SamosaChat.Marks
