import SamosaChat.Tokenizer.Encode

set_option autoImplicit false

namespace SamosaChat.Tokenizer

open Utf8

theorem next_width (c : UInt8) (s : Bytes) : 1 ≤ (u8Next c s).2 ∧ (u8Next c s).2 ≤ (c :: s).length := by
  unfold u8Next
  split_ifs
  · simp
  · split <;> simp

theorem scan_join (rounds : Nat) : ∀ s : Bytes, s.length ≤ rounds → (scanUnits rounds s).flatMap CodePoint.bytes = s := by
  induction rounds with
  | zero =>
    intro s short
    cases s with
    | nil => rfl
    | cons c s => cases short
  | succ rounds ih =>
    intro s short
    cases s with
    | nil => rfl
    | cons c s =>
      obtain ⟨some_, inside⟩ := next_width c s
      have less : ((c :: s).drop (u8Next c s).2).length ≤ rounds := by
        rw [List.length_drop]
        omega
      rw [scanUnits, List.flatMap_cons, ih _ less]
      exact List.take_append_drop _ _

theorem units_join (s : Bytes) : (units s).flatMap CodePoint.bytes = s :=
  scan_join s.length s (Nat.le_refl _)

theorem scan_some (rounds : Nat) : ∀ s : Bytes, ∀ next ∈ scanUnits rounds s, next.bytes ≠ [] := by
  induction rounds with
  | zero => simp [scanUnits]
  | succ rounds ih =>
    intro s next inside
    cases s with
    | nil => cases inside
    | cons c s =>
      rcases List.mem_cons.mp inside with rfl | later
      · obtain ⟨some_, _⟩ := next_width c s
        obtain ⟨k, width⟩ : ∃ k, (u8Next c s).2 = k + 1 := ⟨(u8Next c s).2 - 1, by omega⟩
        rw [width, List.take_succ_cons]
        simp
      · exact ih _ next later

theorem contraction_bounds {cps : List Nat} {k : Nat} (cut : contraction cps = some k) : 0 < k ∧ k ≤ cps.length := by
  unfold contraction at cut
  split at cut
  · next d rest =>
      simp only at cut
      split_ifs at cut with long short
      · cases cut
        cases rest with
        | nil => cases long
        | cons d2 rest => simp
      · cases cut
        simp
  · cases cut

section Alternatives

variable {classes : Classes} {cps : List Nat} {k : Nat}

theorem take_while_le (p : Nat → Bool) (cps : List Nat) : (cps.takeWhile p).length ≤ cps.length :=
  (List.takeWhile_prefix p).length_le

theorem take_while_some {p : Nat → Bool} {c : Nat} (rest : List Nat) (holds : p c = true) :
    0 < ((c :: rest).takeWhile p).length := by
  rw [List.takeWhile_cons, if_pos holds]
  simp

theorem letters_bounds (cut : letters classes cps = some k) : 0 < k ∧ k ≤ cps.length := by
  unfold letters at cut
  split at cut
  · cases cut
  · next c rest =>
      split_ifs at cut with other letter
      · cases rest with
        | nil => cases cut
        | cons d rest =>
          simp only at cut
          split_ifs at cut
          cases cut
          have inside := take_while_le classes.isL (d :: rest)
          rw [List.length_cons (a := c)]
          omega
      · cases cut
        exact ⟨take_while_some rest letter, take_while_le _ _⟩

theorem numbers_bounds (cut : numbers classes cps = some k) : 0 < k ∧ k ≤ cps.length := by
  unfold numbers at cut
  split at cut
  · cases cut
  · next c rest =>
      split_ifs at cut with number
      cases cut
      refine ⟨take_while_some _ number, Nat.le_trans (take_while_le _ _) ?_⟩
      rw [List.length_take]
      exact Nat.min_le_right _ _

theorem run_le (cps : List Nat) : others.run classes cps ≤ cps.length := by
  have whole := congrArg List.length (List.takeWhile_append_dropWhile (p := isOther classes) (l := cps))
  have lines := take_while_le isNl (cps.dropWhile (isOther classes))
  rw [List.length_append] at whole
  unfold others.run
  omega

theorem run_some {c : Nat} (rest : List Nat) (other : isOther classes c = true) : 0 < others.run classes (c :: rest) := by
  have some_ := take_while_some (p := isOther classes) rest other
  unfold others.run
  omega

theorem others_bounds (cut : others classes cps = some k) : 0 < k ∧ k ≤ cps.length := by
  unfold others at cut
  split at cut
  · next d rest =>
      split_ifs at cut with second first
      · cases cut
        have inside := @run_le classes (d :: rest)
        rw [List.length_cons (a := 0x20)]
        omega
      · cases cut
        exact ⟨run_some _ first, run_le _⟩
  · split_ifs at cut with other
    cases cut
    exact ⟨run_some _ other, run_le _⟩
  · cases cut

theorem spaces_bounds (cut : spaces classes cps = some k) : 0 < k ∧ k ≤ cps.length := by
  unfold spaces at cut
  simp only at cut
  have inside := take_while_le classes.isS cps
  split_ifs at cut with none_ lines before
  · cases cut
    refine ⟨lines, Nat.le_trans ?_ inside⟩
    have shorter := (List.dropWhile_suffix (fun c => !isNl c) (l := (cps.takeWhile classes.isS).reverse)).length_le
    rwa [List.length_reverse] at shorter
  · cases cut
    have some_ := List.length_pos_of_ne_nil none_
    omega
  · cases cut
    exact ⟨List.length_pos_of_ne_nil none_, inside⟩

theorem next_cut_bounds (some_ : cps ≠ []) : 0 < nextCut classes cps ∧ nextCut classes cps ≤ cps.length := by
  unfold nextCut
  cases first : contraction cps with
  | some k => exact contraction_bounds first
  | none =>
    cases second : letters classes cps with
    | some k => exact letters_bounds second
    | none =>
      cases third : numbers classes cps with
      | some k => exact numbers_bounds third
      | none =>
        cases fourth : others classes cps with
        | some k => exact others_bounds fourth
        | none =>
          cases fifth : spaces classes cps with
          | some k => exact spaces_bounds fifth
          | none => exact ⟨Nat.one_pos, List.length_pos_of_ne_nil some_⟩

theorem cut_join (rounds : Nat) : ∀ us : List CodePoint, us.length ≤ rounds →
    (cutUnits classes rounds us).flatten = us.flatMap CodePoint.bytes := by
  induction rounds with
  | zero =>
    intro us short
    cases us with
    | nil => rfl
    | cons next rest => cases short
  | succ rounds ih =>
    intro us short
    cases us with
    | nil => rfl
    | cons next rest =>
      rw [cutUnits]
      obtain ⟨some_, inside⟩ := @next_cut_bounds classes ((next :: rest).map CodePoint.cp) (by simp)
      generalize nextCut classes ((next :: rest).map CodePoint.cp) = k at some_ inside ⊢
      have less : ((next :: rest).drop k).length ≤ rounds := by
        rw [List.length_drop]
        omega
      rw [List.flatten_cons, ih _ less, ← List.flatMap_append, List.take_append_drop]

theorem cut_some (rounds : Nat) : ∀ us : List CodePoint, (∀ next ∈ us, next.bytes ≠ []) →
    ∀ piece ∈ cutUnits classes rounds us, piece ≠ [] := by
  induction rounds with
  | zero => simp [cutUnits]
  | succ rounds ih =>
    intro us full piece inside
    cases us with
    | nil => cases inside
    | cons next rest =>
      rw [cutUnits] at inside
      obtain ⟨some_, _⟩ := @next_cut_bounds classes ((next :: rest).map CodePoint.cp) (by simp)
      generalize nextCut classes ((next :: rest).map CodePoint.cp) = k at some_ inside
      rcases List.mem_cons.mp inside with rfl | later
      · obtain ⟨j, rfl⟩ : ∃ j, k = j + 1 := ⟨k - 1, by omega⟩
        rw [List.take_succ_cons, List.flatMap_cons]
        exact List.append_ne_nil_of_left_ne_nil (full next List.mem_cons_self) _
      · exact ih _ (fun other among => full other (List.mem_of_mem_drop among)) piece later

theorem pretok_join (chunk : Bytes) : (pretokPieces classes chunk).flatten = chunk :=
  (cut_join (units chunk).length (units chunk) (Nat.le_refl _)).trans (units_join chunk)

theorem pretok_some (chunk : Bytes) : ∀ piece ∈ pretokPieces classes chunk, piece ≠ [] :=
  cut_some _ _ (scan_some chunk.length chunk)

end Alternatives

theorem hit_here {sp : List Special} {text : Bytes} {at_ : Nat} {special : Special} (found : hit sp text = some (at_, special)) :
    special ∈ sp ∧ 0 < special.str.length ∧ special.str <+: text.drop at_ ∧ at_ < text.length := by
  induction text generalizing at_ with
  | nil => cases found
  | cons c rest ih =>
    rw [hit] at found
    split at found
    · next first =>
        cases found
        have holds := List.find?_some first
        rw [Bool.and_eq_true, decide_eq_true_eq, List.isPrefixOf_iff_prefix] at holds
        exact ⟨List.mem_of_find?_eq_some first, holds.1, holds.2, Nat.zero_lt_succ _⟩
    · obtain ⟨⟨before, special'⟩, inner, pair⟩ := Option.map_eq_some_iff.mp found
      obtain ⟨rfl, rfl⟩ := Prod.mk.inj pair
      obtain ⟨among, some_, start, inside⟩ := ih inner
      exact ⟨among, some_, start, Nat.succ_lt_succ inside⟩

def Part.bytes : Part → Bytes
  | .chunk bytes => bytes
  | .added special => special.str

theorem split_join (sp : List Special) (rounds : Nat) : ∀ text : Bytes, text.length ≤ rounds →
    (splitAdded sp rounds text).flatMap Part.bytes = text := by
  induction rounds with
  | zero =>
    intro text short
    cases text with
    | nil => rfl
    | cons c rest => cases short
  | succ rounds ih =>
    intro text short
    rw [splitAdded]
    cases found : hit sp text with
    | none =>
      simp only
      split_ifs with empty
      · rw [empty]
        rfl
      · exact List.append_nil _
    | some pair =>
      obtain ⟨at_, special⟩ := pair
      obtain ⟨_, some_, ⟨rest, start⟩, inside⟩ := hit_here found
      have later : text.drop (at_ + special.str.length) = rest := by
        rw [← List.drop_drop, ← start, List.drop_left]
      have less : rest.length ≤ rounds := by
        rw [← later, List.length_drop]
        omega
      have front : (if at_ = 0 then [] else [Part.chunk (text.take at_)]).flatMap Part.bytes = text.take at_ := by
        split_ifs with zero
        · rw [zero]
          rfl
        · exact List.append_nil _
      simp only
      rw [List.flatMap_append, List.flatMap_cons, front, later, ih rest less]
      change text.take at_ ++ (special.str ++ rest) = text
      rw [start, List.take_append_drop]

theorem split_added {sp : List Special} (rounds : Nat) : ∀ {text : Bytes} {special : Special},
    .added special ∈ splitAdded sp rounds text → special ∈ sp ∧ special.str ≠ [] := by
  induction rounds with
  | zero => intro text special inside; cases inside
  | succ rounds ih =>
    intro text special inside
    rw [splitAdded] at inside
    cases found : hit sp text with
    | none =>
      rw [found] at inside
      simp only at inside
      split_ifs at inside
      · cases inside
      · cases List.mem_singleton.mp inside
    | some pair =>
      obtain ⟨at_, first⟩ := pair
      rw [found] at inside
      simp only at inside
      rcases List.mem_append.mp inside with front | rest
      · split_ifs at front
        · cases front
        · cases List.mem_singleton.mp front
      · rcases List.mem_cons.mp rest with same | later
        · cases same
          obtain ⟨among, some_, _⟩ := hit_here found
          exact ⟨among, List.ne_nil_of_length_pos some_⟩
        · exact ih later

def Part.pieces (classes : Classes) : Part → List Bytes
  | .chunk text => pretokPieces classes text
  | .added special => [special.str]

def parts (tok : Tok) (text : Bytes) (allowAddedTokens : Bool) : List Part :=
  if allowAddedTokens then splitAdded tok.sp text.length text else [.chunk text]

def cuts (classes : Classes) (tok : Tok) (text : Bytes) (allowAddedTokens : Bool) : List Bytes :=
  (parts tok text allowAddedTokens).flatMap (Part.pieces classes)

theorem part_pieces_join (classes : Classes) (part : Part) : (part.pieces classes).flatten = part.bytes := by
  cases part with
  | chunk chunk => exact pretok_join chunk
  | added special => exact List.append_nil _

theorem parts_join (tok : Tok) (text : Bytes) (allow : Bool) : (parts tok text allow).flatMap Part.bytes = text := by
  cases allow with
  | false => exact List.append_nil _
  | true => exact split_join tok.sp text.length text (Nat.le_refl _)

theorem cuts_join (classes : Classes) (tok : Tok) (text : Bytes) (allow : Bool) : (cuts classes tok text allow).flatten = text := by
  have join : ∀ parts : List Part, (parts.flatMap (Part.pieces classes)).flatten = parts.flatMap Part.bytes := by
    intro parts
    induction parts with
    | nil => rfl
    | cons part parts ih =>
      rw [List.flatMap_cons, List.flatten_append, ih, part_pieces_join, List.flatMap_cons]
  rw [cuts, join, parts_join]

theorem cuts_some (classes : Classes) (tok : Tok) (text : Bytes) (allow : Bool) :
    ∀ piece ∈ cuts classes tok text allow, piece ≠ [] := by
  intro piece inside
  obtain ⟨part, among, here⟩ := List.mem_flatMap.mp inside
  cases part with
  | chunk chunk => exact pretok_some chunk piece here
  | added special =>
    cases List.mem_singleton.mp here
    cases allow with
    | false => cases List.mem_singleton.mp among
    | true => exact (split_added _ among).2

end SamosaChat.Tokenizer
