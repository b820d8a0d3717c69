import SamosaChat.Lib.Scanf

set_option autoImplicit false

namespace SamosaChat.UriReference

open Utf8 Text

structure Reference where
  scheme : Option Bytes
  authority : Option Bytes
  path : Bytes
  query : Bytes
  fragment : Bytes
deriving DecidableEq

def isMark (c : UInt8) : Bool :=
  c == 0x2f || c == 0x3f || c == 0x23

def isAsk (c : UInt8) : Bool :=
  c == 0x3f || c == 0x23

def schemeOf (text : Bytes) : Option Bytes :=
  let name := text.takeWhile fun c => c ≠ 0x3a && !isMark c
  if (text.drop name.length).head? = some 0x3a ∧ (name.head?.any isAlpha) = true ∧
      (name.all fun c => isAlnum c || c == 0x2b || c == 0x2d || c == 0x2e) = true then some name
  else none

def authorityIn (text : Bytes) : Option Bytes :=
  if (utf8 "//").isPrefixOf text then some ((text.drop 2).takeWhile fun c => !isMark c) else none

def parse (text : Bytes) : Reference :=
  let scheme := schemeOf text
  let hier :=
    match scheme with
    | none => text
    | some name => text.drop (name.length + 1)
  let authority := authorityIn hier
  let rest :=
    match authority with
    | none => hier
    | some auth => hier.drop (auth.length + 2)
  let behind := rest.dropWhile fun c => !isAsk c
  { scheme := scheme, authority := authority, path := rest.takeWhile fun c => !isAsk c
    query := behind.takeWhile (· ≠ 0x23), fragment := behind.dropWhile (· ≠ 0x23) }

def recompose (reference : Reference) : Bytes :=
  (match reference.scheme with
    | none => []
    | some name => name ++ [0x3a]) ++
  (match reference.authority with
    | none => []
    | some auth => 0x2f :: 0x2f :: auth) ++ reference.path ++ reference.query ++ reference.fragment

def segments : Bytes → List Bytes
  | [] => [[]]
  | c :: rest =>
    if c = 0x2f then [] :: segments rest
    else
      match segments rest with
      | [] => [[c]]
      | first :: more => (c :: first) :: more

def isDot (segment : Bytes) : Bool :=
  segment == [0x2e]

def isDots (segment : Bytes) : Bool :=
  segment == [0x2e, 0x2e]

def enter (out : List Bytes) (segment : Bytes) : List Bytes :=
  if isDot segment then out else if isDots segment then out.tail else segment :: out

def leave (out : List Bytes) (segment : Bytes) : List Bytes :=
  if isDot segment || isDots segment then [] :: enter out segment else enter out segment

def settle (out : List Bytes) : List Bytes → List Bytes
  | [] => out.reverse
  | [segment] => (leave out segment).reverse
  | segment :: more => settle (enter out segment) more

def slashed (parts : List Bytes) : Bytes :=
  parts.flatMap fun segment => 0x2f :: segment

def removeDots (path : Bytes) : Bytes :=
  match path with
  | [] => []
  | c :: rest => if c = 0x2f then slashed (settle [] (segments rest)) else path

def merge (base path : Bytes) : Bytes :=
  if base = [] then 0x2f :: path else beforeLast 0x2f base ++ 0x2f :: path

def resolve (base reference : Reference) : Reference :=
  if reference.scheme.isSome then { reference with path := removeDots reference.path }
  else if reference.authority.isSome then { reference with scheme := base.scheme, path := removeDots reference.path }
  else if reference.path = [] then
    { base with
      query := if reference.query = [] then base.query else reference.query
      fragment := reference.fragment }
  else
    { reference with
      scheme := base.scheme
      authority := base.authority
      path := removeDots (if reference.path.head? = some 0x2f then reference.path else merge base.path reference.path) }

def DotFree (path : Bytes) : Prop :=
  ∀ segment ∈ segments path, isDot segment = false ∧ isDots segment = false

instance (path : Bytes) : Decidable (DotFree path) :=
  inferInstanceAs (Decidable (∀ segment ∈ segments path, isDot segment = false ∧ isDots segment = false))

theorem segments_some (path : Bytes) : segments path ≠ [] := by
  cases path with
  | nil => exact List.cons_ne_nil _ _
  | cons c rest =>
    rw [segments]
    split_ifs
    · exact List.cons_ne_nil _ _
    · split <;> exact List.cons_ne_nil _ _

theorem segments_slash (first rest : Bytes) : segments (first ++ 0x2f :: rest) = segments first ++ segments rest := by
  induction first with
  | nil => rfl
  | cons c first ih =>
    rw [List.cons_append, segments, segments, ih]
    split_ifs
    · rfl
    · cases parts : segments first with
      | nil => exact absurd parts (segments_some first)
      | cons part parts => rfl

theorem slashed_segments (path : Bytes) : slashed (segments path) = 0x2f :: path := by
  induction path with
  | nil => rfl
  | cons c path ih =>
    rw [segments]
    split_ifs with slash
    · rw [slashed, List.flatMap_cons, ← slashed, ih, slash]
      rfl
    · cases parts : segments path with
      | nil => exact absurd parts (segments_some path)
      | cons part parts_ =>
        rw [parts, slashed, List.flatMap_cons, ← slashed, List.cons_append] at ih
        have same := (List.cons.inj ih).2
        dsimp only
        rw [slashed, List.flatMap_cons, ← slashed, List.cons_append, List.cons_append, same]

theorem slashed_append (first second : List Bytes) : slashed (first ++ second) = slashed first ++ slashed second :=
  List.flatMap_append

section Settled

variable {out more : List Bytes}

theorem settle_append (more_ : more ≠ []) (first : List Bytes) :
    settle out (first ++ more) = settle (first.foldl enter out) more := by
  induction first generalizing out with
  | nil => rfl
  | cons segment first ih =>
    rw [List.cons_append, List.foldl_cons, ← ih]
    cases rest : first ++ more with
    | nil => exact absurd (List.append_eq_nil_iff.mp rest).2 more_
    | cons next rest => rfl

theorem settle_free (free : ∀ segment ∈ more, isDot segment = false ∧ isDots segment = false) :
    settle out more = out.reverse ++ more := by
  induction more generalizing out with
  | nil => exact (List.append_nil _).symm
  | cons segment more ih =>
    obtain ⟨dot, dots⟩ := free segment List.mem_cons_self
    have stays : enter out segment = segment :: out := by
      rw [enter, dot, dots]
      rfl
    cases more with
    | nil =>
      rw [settle, leave, dot, dots, stays]
      exact List.reverse_cons
    | cons next more =>
      rw [settle, ih fun other inside => free other (List.mem_cons_of_mem _ inside), stays, List.reverse_cons, List.append_assoc]
      · rfl
      · exact List.cons_ne_nil _ _

end Settled

theorem settle_some {out more : List Bytes} (more_ : more ≠ []) : settle out more ≠ [] := by
  have left (out : List Bytes) (segment : Bytes) : leave out segment ≠ [] := by
    unfold leave enter
    cases isDot segment <;> cases isDots segment <;> simp
  induction more generalizing out with
  | nil => exact absurd rfl more_
  | cons segment more ih =>
    cases more with
    | nil =>
      rw [settle]
      exact mt List.reverse_eq_nil_iff.mp (left out segment)
    | cons next more => exact ih (List.cons_ne_nil _ _)

theorem remove_dots_absolute {path : Bytes} (absolute : path.head? = some 0x2f) : (removeDots path).head? = some 0x2f := by
  cases path with
  | nil => cases absolute
  | cons c rest =>
    cases absolute
    rw [removeDots, if_pos rfl]
    obtain ⟨first, more, shape⟩ := List.exists_cons_of_ne_nil (settle_some (segments_some rest))
    rw [shape]
    rfl

theorem remove_dots_free {path : Bytes} (free : DotFree path) : removeDots path = path := by
  cases path with
  | nil => rfl
  | cons c rest =>
    rw [removeDots]
    split_ifs with slash
    · subst slash
      have behind : ∀ segment ∈ segments rest, isDot segment = false ∧ isDots segment = false := by
        intro segment inside
        exact free segment (by rw [segments, if_pos rfl]; exact List.mem_cons_of_mem _ inside)
      rw [settle_free behind, List.reverse_nil, List.nil_append, slashed_segments]
    · rfl

theorem remove_dots_behind {directory path : Bytes} (absolute : directory = [] ∨ directory.head? = some 0x2f)
    (free : DotFree path) : removeDots (directory ++ 0x2f :: path) = removeDots (directory ++ [0x2f]) ++ path := by
  have behind (out : List Bytes) : slashed (settle out (segments path)) = slashed (settle out [[]]) ++ path := by
    rw [settle_free free, settle_free (by decide), slashed_append, slashed_append, slashed_segments, List.append_assoc]
    rfl
  rcases absolute with rfl | slash
  · rw [List.nil_append, List.nil_append, removeDots, removeDots, if_pos rfl, if_pos rfl]
    exact behind []
  · cases directory with
    | nil => cases slash
    | cons c directory =>
      cases slash
      rw [List.cons_append, List.cons_append, removeDots, removeDots, if_pos rfl, if_pos rfl, segments_slash, segments_slash,
        settle_append (segments_some _), settle_append (segments_some _)]
      exact behind _

theorem take_while_drop {p : UInt8 → Bool} (text : Bytes) : text.takeWhile p ++ text.drop (text.takeWhile p).length = text := by
  have front := List.prefix_iff_eq_take.mp (List.takeWhile_prefix p (l := text))
  conv_lhs => rw [front, List.length_take, Nat.min_eq_left (List.takeWhile_prefix p).length_le]
  exact List.take_append_drop _ _

theorem scheme_shape {text name : Bytes} (found : schemeOf text = some name) :
    name ++ 0x3a :: text.drop (name.length + 1) = text := by
  unfold schemeOf at found
  dsimp only at found
  split_ifs at found with good
  cases found
  have whole := take_while_drop (p := fun c => decide (c ≠ 0x3a) && !isMark c) text
  conv_rhs => rw [← whole]
  rw [← List.drop_drop]
  cases rest : text.drop (text.takeWhile fun c => decide (c ≠ 0x3a) && !isMark c).length with
  | nil =>
    rw [rest] at good
    cases good.1
  | cons c rest =>
    rw [rest] at good
    cases good.1
    rfl

theorem authority_shape {text auth : Bytes} (found : authorityIn text = some auth) :
    0x2f :: 0x2f :: auth ++ text.drop (auth.length + 2) = text := by
  unfold authorityIn at found
  split_ifs at found with slashes
  cases found
  obtain ⟨rest, shape⟩ := List.isPrefixOf_iff_prefix.mp slashes
  have marks : utf8 "//" = [0x2f, 0x2f] := by decide
  rw [marks] at shape
  subst shape
  have whole := take_while_drop (p := fun c => !isMark c) rest
  rw [Nat.add_comm, ← List.drop_drop]
  exact congrArg (fun text => 0x2f :: 0x2f :: text) whole

theorem recompose_parse (text : Bytes) : recompose (parse text) = text := by
  have behind (rest : Bytes) : ((rest.takeWhile fun c => !isAsk c) ++ (rest.dropWhile fun c => !isAsk c).takeWhile (· ≠ 0x23)) ++
      (rest.dropWhile fun c => !isAsk c).dropWhile (· ≠ 0x23) = rest := by
    rw [List.append_assoc, List.takeWhile_append_dropWhile, List.takeWhile_append_dropWhile]
  have hier (text : Bytes) : (match authorityIn text with
      | none => []
      | some auth => 0x2f :: 0x2f :: auth) ++ (match authorityIn text with
      | none => text
      | some auth => text.drop (auth.length + 2)) = text := by
    cases found : authorityIn text with
    | none => rfl
    | some auth => exact authority_shape found
  rw [recompose, parse]
  dsimp only
  cases found : schemeOf text with
  | none =>
    rw [List.nil_append, List.append_assoc, List.append_assoc, ← List.append_assoc _ _ (List.dropWhile _ _), behind]
    exact hier text
  | some name =>
    dsimp only
    rw [List.append_assoc, List.append_assoc, List.append_assoc, ← List.append_assoc _ _ (List.dropWhile _ _), behind,
      hier, List.append_assoc]
    exact scheme_shape found

end SamosaChat.UriReference
