import SamosaChat.Json.Strict

set_option autoImplicit false

namespace SamosaChat.OcrJson

open Utf8 Text JsonGrammar
open Json (Stop jWs fuelFor)
open FloatText (isHex hexDigitsValue strtod)

variable {depth : Nat} {s : Bytes}

section Values

-- A byte that stands behind a value or a name inside an array or an object.
def Marked (r : Bytes) : Prop :=
  ∃ c t, r = c :: t ∧ c ∈ [(0x2c : UInt8), 0x3a, 0x5d, 0x7d]

theorem marked_stop {t : Bytes} (mark : Marked (jWs t)) : FloatText.Stop t := by
  obtain ⟨c, u, shape, inside⟩ := mark
  have blank : Ws t (c :: u) := by
    rw [← shape]
    exact ws_drop t
  exact ws_stop blank inside

theorem behind_judges {close : UInt8} {f : Cursor → Strict} {more : Bytes → Bytes → Prop} (some_ : close ≠ 0)
    (other : close ≠ 0x2c) (t : Bytes) (later : ∀ u, u.length < t.length → Judges Anything u (more u) (f (some u))) :
    Judges Anything t (fun r => t = close :: r ∨ ∃ u, t = 0x2c :: u ∧ more u r)
      ((peek (some t)).bind fun ch =>
        if ch = close then .ok (some (step (some t)))
        else if ch = 0x2c then f (step (some t))
        else .ok none) := by
  cases t with
  | nil =>
    have stop : ((peek (some [])).bind fun ch => if ch = close then .ok (some (step (some [])))
        else if ch = 0x2c then f (step (some [])) else .ok none) = (.ok none : Strict) := if_neg (Ne.symm some_)
    rw [stop]
    apply judges_none
    rintro r (shape | ⟨u, shape, _⟩)
    · cases shape
    · cases shape
  | cons c t =>
    have read : ((peek (some (c :: t))).bind fun ch => if ch = close then .ok (some (step (some (c :: t))))
        else if ch = 0x2c then f (step (some (c :: t))) else .ok none) =
        if c = close then .ok (some (some t)) else if c = 0x2c then f (some t) else .ok none := rfl
    rw [read]
    by_cases closed : c = close
    · rw [if_pos closed, closed]
      refine judges_some (List.suffix_cons _ _) (.inl rfl) ?_
      rintro r (shape | ⟨u, shape, _⟩) _
      · exact (List.cons.inj shape).2.symm
      · exact absurd (List.cons.inj shape).1 other
    rw [if_neg closed]
    by_cases comma : c = 0x2c
    · rw [if_pos comma, comma]
      refine judges_congr (fun r => ?_) (List.suffix_cons _ _) (later t (Nat.lt_succ_self _))
      constructor
      · rintro (shape | ⟨u, shape, inside⟩)
        · exact absurd (List.cons.inj shape).1.symm other
        · cases shape
          exact inside
      · exact fun inside => .inr ⟨t, rfl, inside⟩
    · rw [if_neg comma]
      apply judges_none
      rintro r (shape | ⟨u, shape, _⟩)
      · exact closed (List.cons.inj shape).1
      · exact comma (List.cons.inj shape).1

def Fits (depth : Nat) (s r : Bytes) : Prop :=
  ∃ tree, Value (jWs s) tree r ∧ depth + tree.nesting ≤ 64

def FitsKids (depth : Nat) (s r : Bytes) : Prop :=
  ∃ kids, Kids (jWs s) kids r ∧ depth + nestingKids kids ≤ 64

def FitsFields (depth : Nat) (s r : Bytes) : Prop :=
  ∃ fields, Fields (jWs s) fields r ∧ depth + nestingFields fields ≤ 64

theorem fits_kids_iff {r : Bytes} : FitsKids depth s r ↔
    ∃ t, (∃ u, Fits (depth + 1) s u ∧ t = jWs u) ∧ (t = 0x5d :: r ∨ ∃ u, t = 0x2c :: u ∧ FitsKids depth u r) := by
  constructor
  · rintro ⟨kids, inside, bound⟩
    cases inside with
    | last value close =>
      rw [nestingKids, nestingKids] at bound
      exact ⟨_, ⟨_, ⟨_, value, by omega⟩, rfl⟩, .inl ((ws_mark (by decide)).mp close)⟩
    | more value comma blank rest =>
      rw [nestingKids] at bound
      have skipped := ws_skip blank fun c front => (kids_front rest c front).1
      exact ⟨_, ⟨_, ⟨_, value, by omega⟩, rfl⟩, .inr ⟨_, (ws_mark (by decide)).mp comma, _, by rw [jWs, skipped]; exact rest, by omega⟩⟩
  · rintro ⟨t, ⟨u, ⟨tree, value, bound⟩, rfl⟩, close | ⟨v, comma, kids, inside, bound'⟩⟩
    · refine ⟨[tree], .last value ((ws_mark (by decide)).mpr close), ?_⟩
      rw [nestingKids, nestingKids]
      omega
    · refine ⟨tree :: kids, .more value ((ws_mark (by decide)).mpr comma) (ws_drop v) inside, ?_⟩
      rw [nestingKids]
      omega

def Named (s r : Bytes) : Prop :=
  ∃ t elements u, jWs s = 0x22 :: t ∧ Chars t elements u ∧ jWs u = 0x3a :: r

theorem fits_fields_iff {r : Bytes} : FitsFields depth s r ↔ ∃ t, (∃ w, (∃ v, Named s v ∧ Fits (depth + 1) v w) ∧ t = jWs w) ∧
      (t = 0x7d :: r ∨ ∃ u, t = 0x2c :: u ∧ FitsFields depth u r) := by
  constructor
  · rintro ⟨fields, inside, bound⟩
    generalize whole : jWs s = front at inside
    cases inside with
    | last name colon blank value close =>
      rw [nestingFields, nestingFields] at bound
      have skipped := ws_skip blank fun c front => (value_front value c front).1
      exact ⟨_, ⟨_, ⟨_, ⟨_, _, _, whole, name, (ws_mark (by decide)).mp colon⟩, _, by rw [jWs, skipped]; exact value, by omega⟩, rfl⟩,
        .inl ((ws_mark (by decide)).mp close)⟩
    | more name colon blank value comma blank' rest =>
      rw [nestingFields] at bound
      have skipped := ws_skip blank fun c front => (value_front value c front).1
      have skipped' := ws_skip blank' fun c front => by
        rw [fields_front rest] at front
        cases front
        decide
      exact ⟨_, ⟨_, ⟨_, ⟨_, _, _, whole, name, (ws_mark (by decide)).mp colon⟩, _, by rw [jWs, skipped]; exact value, by omega⟩, rfl⟩,
        .inr ⟨_, (ws_mark (by decide)).mp comma, _, by rw [jWs, skipped']; exact rest, by omega⟩⟩
  · rintro ⟨t, ⟨w, ⟨v, ⟨u, elements, x, whole, name, colon⟩, tree, value, bound⟩, rfl⟩, close | ⟨y, comma, fields, inside, bound'⟩⟩
    · refine ⟨[(bytesOf elements, tree)], ?_, ?_⟩
      · rw [whole]
        exact .last name ((ws_mark (by decide)).mpr colon) (ws_drop v) value ((ws_mark (by decide)).mpr close)
      · rw [nestingFields, nestingFields]
        omega
    · refine ⟨(bytesOf elements, tree) :: fields, ?_, ?_⟩
      · rw [whole]
        exact .more name ((ws_mark (by decide)).mpr colon) (ws_drop v) value ((ws_mark (by decide)).mpr comma) (ws_drop y) inside
      · rw [nestingFields]
        omega

theorem ocr_named_judges (s : Bytes) : Judges Anything s (Named s)
    ((((ocrJsonWs (some s)).andThen ocrJsonString).andThen ocrJsonWs).andThen (ocrTake 0x3a)) := by
  have name := judges_then (ws_judges s) (fun _ _ _ _ => trivial) fun t _ _ => ocr_string_judges t
  have blank := judges_then name (fun _ _ _ _ => trivial) fun t _ _ => ws_judges t
  have mark : (0x3a : UInt8) ≠ 0 := by decide
  have colon := judges_then blank (fun _ _ _ _ => trivial) fun t _ _ => take_judges mark t
  refine judges_congr (fun r => ?_) (List.suffix_refl _) colon
  constructor
  · rintro ⟨t, elements, u, whole, chars, mark⟩
    exact ⟨_, ⟨u, ⟨_, rfl, t, elements, whole, chars⟩, rfl⟩, mark⟩
  · rintro ⟨_, ⟨u, ⟨_, rfl, t, elements, whole, chars⟩, rfl⟩, mark⟩
    exact ⟨t, elements, u, whole, chars, mark⟩

theorem opened_judges {close : UInt8} {f : Cursor → Strict} {inside : Bytes → Prop} (some_ : close ≠ 0) (t : Bytes)
    (apart : ∀ r, inside r → (jWs t).head? ≠ some close) (later : Judges Anything (jWs t) inside (f (some (jWs t)))) :
    Judges Anything t (fun r => jWs t = close :: r ∨ inside r) ((ocrJsonWs (some t)).andThen fun c =>
      (peek c).bind fun ch => if ch = close then .ok (some (step c)) else f c) := by
  have shown : ((ocrJsonWs (some t)).andThen fun c => (peek c).bind fun ch => if ch = close then .ok (some (step c)) else f c) =
      if (jWs t).headD 0 = close then .ok (some (step (some (jWs t)))) else f (some (jWs t)) := rfl
  have skipped : jWs t <:+ t := List.dropWhile_suffix _
  rw [shown]
  by_cases closed : (jWs t).headD 0 = close
  · rw [if_pos closed]
    cases whole : jWs t with
    | nil =>
      rw [whole] at closed
      exact absurd closed.symm some_
    | cons c u =>
      rw [whole] at closed apart skipped
      have same : c = close := closed
      refine judges_some ((List.suffix_cons _ _).trans skipped) (.inl (by rw [same])) ?_
      rintro r (shape | within) _
      · exact (List.cons.inj shape).2.symm
      · exact absurd (congrArg some same) (apart r within)
  · rw [if_neg closed]
    refine judges_congr (fun r => ?_) skipped later
    constructor
    · rintro (shape | within)
      · rw [shape] at closed
        exact absurd rfl closed
      · exact within
    · exact .inr

end Values

variable {c : UInt8} {w : Tree}

section Kinds

variable {t r : Bytes} {tree : Tree}

theorem first_byte (value : Value (c :: t) tree r) : c ∈ tree.leads := by
  obtain ⟨d, u, shape, starts⟩ := value_starts value
  rw [(List.cons.inj shape).1]
  exact starts

theorem lead_kinds (starts : c ∈ tree.leads) : (c = 0x22 ∧ ∃ bytes, tree = .str bytes) ∨
    (c ∈ (Tree.num false 0 0).leads ∧ ∃ negative mantissa exponent, tree = .num negative mantissa exponent) ∨
    (c = 0x5b ∧ ∃ kids, tree = .arr kids) ∨ (c = 0x7b ∧ ∃ fields, tree = .obj fields) ∨
    (c ∈ [(0x6e : UInt8), 0x74, 0x66] ∧ (tree = .null ∨ ∃ boolean, tree = .bool boolean)) := by
  cases tree with
  | str => exact .inl ⟨List.mem_singleton.mp starts, _, rfl⟩
  | num => exact .inr (.inl ⟨starts, _, _, _, rfl⟩)
  | arr => exact .inr (.inr (.inl ⟨List.mem_singleton.mp starts, _, rfl⟩))
  | obj => exact .inr (.inr (.inr (.inl ⟨List.mem_singleton.mp starts, _, rfl⟩)))
  | null =>
    have same : c = 0x6e := List.mem_singleton.mp starts
    exact .inr (.inr (.inr (.inr ⟨by rw [same]; decide, .inl rfl⟩)))
  | bool boolean =>
    have same : c = if boolean then 0x74 else 0x66 := List.mem_singleton.mp starts
    exact .inr (.inr (.inr (.inr ⟨by rw [same]; cases boolean <;> decide, .inr ⟨boolean, rfl⟩⟩)))

theorem value_string_iff : Value (0x22 :: t) tree r ↔ ∃ elements, Chars t elements r ∧ tree = .str (bytesOf elements) := by
  constructor
  · intro value
    rcases lead_kinds (first_byte value) with ⟨_, bytes, rfl⟩ | ⟨other, _⟩ | ⟨other, _⟩ | ⟨other, _⟩ | ⟨other, _⟩
    · obtain ⟨u, elements, shape, chars, rfl⟩ := value_str value
      rw [(List.cons.inj shape).2]
      exact ⟨elements, chars, rfl⟩
    all_goals exact absurd other (by decide)
  · rintro ⟨elements, chars, rfl⟩
    exact .str chars

theorem value_number_iff (number : c = 0x2d ∨ isDigit c = true) : Value (c :: t) tree r ↔
    ∃ numeral : Numeral, c :: t = numeral.text ++ r ∧ tree = .num numeral.negative numeral.mantissa numeral.exponent := by
  have others : ∀ c ∈ (Tree.num false 0 0).leads, c ≠ 0x22 ∧ c ≠ 0x5b ∧ c ≠ 0x7b ∧ c ∉ [(0x6e : UInt8), 0x74, 0x66] := by decide
  obtain ⟨string, array, object, word⟩ := others c (lead_number c number)
  constructor
  · intro value
    rcases lead_kinds (first_byte value) with
      ⟨same, _⟩ | ⟨_, negative, mantissa, exponent, rfl⟩ | ⟨same, _⟩ | ⟨same, _⟩ | ⟨same, _⟩
    · exact absurd same string
    · obtain ⟨numeral, shape, rfl, rfl, rfl⟩ := value_num value
      exact ⟨numeral, shape, rfl⟩
    · exact absurd same array
    · exact absurd same object
    · exact absurd same word
  · rintro ⟨numeral, shape, rfl⟩
    rw [shape]
    exact .num numeral r

theorem value_array_iff : Value (0x5b :: t) tree r ↔
    ∃ kids, tree = .arr kids ∧ ((kids = [] ∧ jWs t = 0x5d :: r) ∨ Kids (jWs t) kids r) := by
  constructor
  · intro value
    rcases lead_kinds (first_byte value) with ⟨other, _⟩ | ⟨other, _⟩ | ⟨_, kids, rfl⟩ | ⟨other, _⟩ | ⟨other, _⟩
    case inr.inr.inl =>
      obtain ⟨u, shape, inside⟩ := value_arr value
      rw [(List.cons.inj shape).2]
      refine ⟨kids, rfl, ?_⟩
      rcases inside with ⟨none_, blank⟩ | ⟨v, blank, inside⟩
      · exact .inl ⟨none_, (ws_mark (by decide)).mp blank⟩
      · rw [jWs, ws_skip blank fun c front => (kids_front inside c front).1]
        exact .inr inside
    all_goals exact absurd other (by decide)
  · rintro ⟨kids, rfl, ⟨rfl, blank⟩ | inside⟩
    · exact .emptyArr ((ws_mark (by decide)).mpr blank)
    · exact .arr (ws_drop t) inside

theorem value_object_iff : Value (0x7b :: t) tree r ↔
    ∃ fields, tree = .obj fields ∧ ((fields = [] ∧ jWs t = 0x7d :: r) ∨ Fields (jWs t) fields r) := by
  constructor
  · intro value
    rcases lead_kinds (first_byte value) with ⟨other, _⟩ | ⟨other, _⟩ | ⟨other, _⟩ | ⟨_, fields, rfl⟩ | ⟨other, _⟩
    case inr.inr.inr.inl =>
      obtain ⟨u, shape, inside⟩ := value_obj value
      rw [(List.cons.inj shape).2]
      refine ⟨fields, rfl, ?_⟩
      rcases inside with ⟨none_, blank⟩ | ⟨v, blank, inside⟩
      · exact .inl ⟨none_, (ws_mark (by decide)).mp blank⟩
      · have skipped := ws_skip blank fun c front => by
          rw [fields_front inside] at front
          cases front
          decide
        rw [jWs, skipped]
        exact .inr inside
    all_goals exact absurd other (by decide)
  · rintro ⟨fields, rfl, ⟨rfl, blank⟩ | inside⟩
    · exact .emptyObj ((ws_mark (by decide)).mpr blank)
    · exact .obj (ws_drop t) inside

def wordTrees : List (Bytes × Tree) :=
  [([0x74, 0x72, 0x75, 0x65], .bool true), ([0x66, 0x61, 0x6c, 0x73, 0x65], .bool false), ([0x6e, 0x75, 0x6c, 0x6c], .null)]

theorem words_written :
    utf8 "true" = [0x74, 0x72, 0x75, 0x65] ∧ utf8 "false" = [0x66, 0x61, 0x6c, 0x73, 0x65] ∧ utf8 "null" = [0x6e, 0x75, 0x6c, 0x6c] := by
  decide

theorem word_cases {word : Bytes} (known : (word, w) ∈ wordTrees) :
    (word = [0x74, 0x72, 0x75, 0x65] ∧ w = .bool true) ∨ (word = [0x66, 0x61, 0x6c, 0x73, 0x65] ∧ w = .bool false) ∨
      (word = [0x6e, 0x75, 0x6c, 0x6c] ∧ w = .null) := by
  simpa [wordTrees] using known

theorem value_word {word : Bytes} (known : (word, w) ∈ wordTrees) (r : Bytes) : Value (word ++ r) w r := by
  obtain ⟨yes, no, null⟩ := words_written
  rcases word_cases known with ⟨rfl, rfl⟩ | ⟨rfl, rfl⟩ | ⟨rfl, rfl⟩
  · rw [← yes]
    exact .yes r
  · rw [← no]
    exact .no r
  · rw [← null]
    exact .null r

theorem word_value (words : tree = .null ∨ ∃ boolean, tree = .bool boolean) (value : Value s tree r) :
    ∃ word, (word, tree) ∈ wordTrees ∧ s = word ++ r := by
  obtain ⟨yes, no, null⟩ := words_written
  rcases words with rfl | ⟨boolean, rfl⟩
  · exact ⟨_, by simp [wordTrees], null ▸ value_null value⟩
  · have shape := value_bool value
    cases boolean with
    | true =>
      rw [if_pos rfl, yes] at shape
      exact ⟨_, by simp [wordTrees], shape⟩
    | false =>
      rw [if_neg Bool.false_ne_true, no] at shape
      exact ⟨_, by simp [wordTrees], shape⟩

theorem word_apart {word word' : Bytes} {w' : Tree} (known : (word, w) ∈ wordTrees) (known' : (word', w') ∈ wordTrees)
    (front : word.head? = word'.head?) : word = word' ∧ w = w' := by
  rcases word_cases known with ⟨rfl, rfl⟩ | ⟨rfl, rfl⟩ | ⟨rfl, rfl⟩ <;>
    rcases word_cases known' with ⟨rfl, rfl⟩ | ⟨rfl, rfl⟩ | ⟨rfl, rfl⟩ <;> simp at front ⊢

theorem word_lead {word : Bytes} (known : (word, w) ∈ wordTrees) : ∃ c u, word = c :: u ∧
    c ∈ [(0x6e : UInt8), 0x74, 0x66] := by
  rcases word_cases known with ⟨rfl, rfl⟩ | ⟨rfl, rfl⟩ | ⟨rfl, rfl⟩
  · exact ⟨_, _, rfl, by decide⟩
  · exact ⟨_, _, rfl, by decide⟩
  · exact ⟨_, _, rfl, by decide⟩

theorem word_front {word : Bytes} (known : (word, w) ∈ wordTrees) (value : Value (word ++ t) tree r) : tree = w ∧ r = t := by
  obtain ⟨c, u, rfl, lead⟩ := word_lead known
  have others : ∀ c ∈ [(0x6e : UInt8), 0x74, 0x66], c ≠ 0x22 ∧ c ∉ (Tree.num false 0 0).leads ∧ c ≠ 0x5b ∧ c ≠ 0x7b := by
    decide
  obtain ⟨string, number, array, object⟩ := others c lead
  rcases lead_kinds (first_byte value) with ⟨same, _⟩ | ⟨same, _⟩ | ⟨same, _⟩ | ⟨same, _⟩ | ⟨_, words⟩
  · exact absurd same string
  · exact absurd same number
  · exact absurd same array
  · exact absurd same object
  · obtain ⟨word', known', shape⟩ := word_value words value
    obtain ⟨c', u', rfl, _⟩ := word_lead known'
    obtain ⟨same, rfl⟩ := word_apart known known' (congrArg some (List.cons.inj shape).1)
    rw [same] at shape
    exact ⟨rfl, (List.append_cancel_left shape).symm⟩

end Kinds

variable {fuel : Nat}

section Run

def ValueJudged (fuel : Nat) : Prop :=
  ∀ s depth, 2 * s.length + 2 ≤ fuel → Judges FloatText.Stop s (Fits depth s) (ocrJsonValue fuel depth (some s))

def KidsJudged (fuel : Nat) : Prop :=
  ∀ s depth, 2 * s.length + 3 ≤ fuel → Judges Anything s (FitsKids depth s) (ocrJsonKids fuel depth (some s))

def FieldsJudged (fuel : Nat) : Prop :=
  ∀ s depth, 2 * s.length + 3 ≤ fuel → Judges Anything s (FitsFields depth s) (ocrJsonFields fuel depth (some s))

theorem marked_behind {close : UInt8} {t r : Bytes} {more : Bytes → Prop} (mark : close ∈ [(0x2c : UInt8), 0x3a, 0x5d, 0x7d])
    (behind : t = close :: r ∨ ∃ u, t = 0x2c :: u ∧ more u) : Marked t := by
  rcases behind with rfl | ⟨u, rfl, _⟩
  · exact ⟨_, _, rfl, mark⟩
  · exact ⟨_, _, rfl, List.mem_cons_self⟩

theorem kids_step (values : ValueJudged fuel) (later : KidsJudged fuel) : KidsJudged (fuel + 1) := by
  intro s depth enough
  have read : ocrJsonKids (fuel + 1) depth (some s) =
      ((ocrJsonValue fuel (depth + 1) (some s)).andThen ocrJsonWs).andThen fun c => (peek c).bind fun ch =>
        if ch = 0x5d then .ok (some (step c)) else if ch = 0x2c then ocrJsonKids fuel depth (step c) else .ok none := by
    rw [ocrJsonKids]
  have front : Judges Marked s (fun r => ∃ t, Fits (depth + 1) s t ∧ r = jWs t)
      ((ocrJsonValue fuel (depth + 1) (some s)).andThen ocrJsonWs) :=
    judges_then (values s (depth + 1) (by omega)) (fun t r same mark => marked_stop (same ▸ mark))
      fun t _ _ => judges_weaken (ws_judges t) fun _ _ => trivial
  rw [read]
  refine judges_congr (fun r => fits_kids_iff) (List.suffix_refl _)
    (judges_then front (fun t r behind _ => marked_behind (by decide) behind) fun t rest _ => ?_)
  refine behind_judges (by decide) (by decide) t fun u shorter => later u depth ?_
  have bound := rest.length_le
  omega

theorem fields_step (values : ValueJudged fuel) (later : FieldsJudged fuel) : FieldsJudged (fuel + 1) := by
  intro s depth enough
  have read : ocrJsonFields (fuel + 1) depth (some s) =
      ((((((ocrJsonWs (some s)).andThen ocrJsonString).andThen ocrJsonWs).andThen (ocrTake 0x3a)).andThen
        (ocrJsonValue fuel (depth + 1))).andThen ocrJsonWs).andThen fun c => (peek c).bind fun ch =>
          if ch = 0x7d then .ok (some (step c)) else if ch = 0x2c then ocrJsonFields fuel depth (step c) else .ok none := by
    rw [ocrJsonFields]
  have member := judges_then (ocr_named_judges s) (fun _ _ _ _ => trivial) fun t rest _ =>
    values t (depth + 1) (by have bound := rest.length_le; omega)
  have front : Judges Marked s (fun r => ∃ w, (∃ v, Named s v ∧ Fits (depth + 1) v w) ∧ r = jWs w) _ :=
    judges_then member (fun t r same mark => marked_stop (same ▸ mark))
      fun t _ _ => judges_weaken (ws_judges t) fun _ _ => trivial
  rw [read]
  refine judges_congr (fun r => fits_fields_iff) (List.suffix_refl _)
    (judges_then front (fun t r behind _ => marked_behind (by decide) behind) fun t rest _ => ?_)
  refine behind_judges (by decide) (by decide) t fun u shorter => later u depth ?_
  have bound := rest.length_le
  omega

theorem arr_nesting (kids : List Tree) : (Tree.arr kids).nesting = nestingKids kids := by
  rw [Tree.nesting]

theorem obj_nesting (fields : List (Bytes × Tree)) : (Tree.obj fields).nesting = nestingFields fields := by
  rw [Tree.nesting]

theorem word_nesting {tree : Tree} (words : tree = .null ∨ ∃ boolean, tree = .bool boolean) : tree.nesting = 0 := by
  rcases words with rfl | ⟨boolean, rfl⟩
  · rw [Tree.nesting] <;> simp
  · rw [Tree.nesting] <;> simp

def Here (depth : Nat) (w r : Bytes) : Prop :=
  ∃ tree, Value w tree r ∧ depth + tree.nesting ≤ 64

theorem string_here (shallow : depth ≤ 64) (t : Bytes) :
    Judges FloatText.Stop (0x22 :: t) (Here depth (0x22 :: t)) (ocrJsonString (some (0x22 :: t))) := by
  refine judges_congr (fun r => ?_) (List.suffix_refl _) (judges_weaken (ocr_string_judges (0x22 :: t)) fun _ _ => trivial)
  constructor
  · rintro ⟨tree, value, _⟩
    obtain ⟨elements, chars, _⟩ := value_string_iff.mp value
    exact ⟨t, elements, rfl, chars⟩
  · rintro ⟨u, elements, shape, chars⟩
    rw [← (List.cons.inj shape).2] at chars
    exact ⟨_, value_string_iff.mpr ⟨elements, chars, rfl⟩, by rw [Tree.nesting] <;> simp [shallow]⟩

theorem number_here (shallow : depth ≤ 64) (number : c = 0x2d ∨ isDigit c = true) (t : Bytes) :
    Judges FloatText.Stop (c :: t) (Here depth (c :: t)) (ocrJsonNumber (some (c :: t))) := by
  refine judges_congr (fun r => ?_) (List.suffix_refl _) (ocr_number_judges (c :: t))
  constructor
  · rintro ⟨tree, value, _⟩
    obtain ⟨numeral, shape, _⟩ := (value_number_iff number).mp value
    exact ⟨numeral, shape⟩
  · rintro ⟨numeral, shape⟩
    exact ⟨_, (value_number_iff number).mpr ⟨numeral, shape, rfl⟩, by rw [Tree.nesting] <;> simp [shallow]⟩

theorem array_here (shallow : depth ≤ 64) {t : Bytes} (kids : KidsJudged fuel) (enough : 2 * t.length + 3 ≤ fuel) :
    Judges FloatText.Stop (0x5b :: t) (Here depth (0x5b :: t)) ((ocrJsonWs (some t)).andThen fun c =>
      (peek c).bind fun ch => if ch = 0x5d then .ok (some (step c)) else ocrJsonKids fuel depth c) := by
  have skipped : jWs (jWs t) = jWs t := List.dropWhile_idempotent _ _
  have small : (jWs t).length ≤ t.length := (List.dropWhile_suffix _).length_le
  have opened : Judges Anything t (fun r => jWs t = 0x5d :: r ∨ FitsKids depth (jWs t) r) _ :=
    opened_judges (f := ocrJsonKids fuel depth) (by decide) t (fun r ⟨_, inside, _⟩ front => by
      rw [skipped] at inside
      exact (kids_front inside 0x5d front).2 rfl) (kids (jWs t) depth (by omega))
  refine judges_congr (fun r => ?_) (List.suffix_cons _ _) (judges_weaken opened fun _ _ => trivial)
  constructor
  · rintro ⟨tree, value, bound⟩
    obtain ⟨kids, rfl, ⟨_, blank⟩ | inside⟩ := value_array_iff.mp value
    · exact .inl blank
    · rw [arr_nesting] at bound
      exact .inr ⟨kids, by rw [skipped]; exact inside, bound⟩
  · rintro (blank | ⟨kids, inside, bound⟩)
    · exact ⟨.arr [], value_array_iff.mpr ⟨[], rfl, .inl ⟨rfl, blank⟩⟩, by rw [arr_nesting, nestingKids]; exact shallow⟩
    · rw [skipped] at inside
      exact ⟨.arr kids, value_array_iff.mpr ⟨kids, rfl, .inr inside⟩, by rw [arr_nesting]; exact bound⟩

theorem object_here (shallow : depth ≤ 64) {t : Bytes} (fields : FieldsJudged fuel) (enough : 2 * t.length + 3 ≤ fuel) :
    Judges FloatText.Stop (0x7b :: t) (Here depth (0x7b :: t)) ((ocrJsonWs (some t)).andThen fun c =>
      (peek c).bind fun ch => if ch = 0x7d then .ok (some (step c)) else ocrJsonFields fuel depth c) := by
  have skipped : jWs (jWs t) = jWs t := List.dropWhile_idempotent _ _
  have small : (jWs t).length ≤ t.length := (List.dropWhile_suffix _).length_le
  have opened : Judges Anything t (fun r => jWs t = 0x7d :: r ∨ FitsFields depth (jWs t) r) _ :=
    opened_judges (f := ocrJsonFields fuel depth) (by decide) t (fun r ⟨_, inside, _⟩ front => by
      rw [skipped] at inside
      rw [fields_front inside] at front
      cases front) (fields (jWs t) depth (by omega))
  refine judges_congr (fun r => ?_) (List.suffix_cons _ _) (judges_weaken opened fun _ _ => trivial)
  constructor
  · rintro ⟨tree, value, bound⟩
    obtain ⟨fields, rfl, ⟨_, blank⟩ | inside⟩ := value_object_iff.mp value
    · exact .inl blank
    · rw [obj_nesting] at bound
      exact .inr ⟨fields, by rw [skipped]; exact inside, bound⟩
  · rintro (blank | ⟨fields, inside, bound⟩)
    · exact ⟨.obj [], value_object_iff.mpr ⟨[], rfl, .inl ⟨rfl, blank⟩⟩, by rw [obj_nesting, nestingFields]; exact shallow⟩
    · rw [skipped] at inside
      exact ⟨.obj fields, value_object_iff.mpr ⟨fields, rfl, .inr inside⟩, by rw [obj_nesting]; exact bound⟩

theorem word_here (shallow : depth ≤ 64) {word : Bytes} (known : (word, w) ∈ wordTrees) (t : Bytes) :
    Judges FloatText.Stop (word ++ t) (Here depth (word ++ t)) (.ok (some (forward word.length (some (word ++ t))))) := by
  have read : forward word.length (some (word ++ t)) = some t := by
    rw [forward, if_pos (by simp), List.drop_left]
  have plain : w.nesting = 0 := by
    apply word_nesting
    rcases word_cases known with ⟨_, rfl⟩ | ⟨_, rfl⟩ | ⟨_, rfl⟩
    · exact .inr ⟨true, rfl⟩
    · exact .inr ⟨false, rfl⟩
    · exact .inl rfl
  rw [read]
  refine judges_some (List.suffix_append _ _) ⟨w, value_word known t, by omega⟩ ?_
  rintro r ⟨tree, value, _⟩ _
  exact (word_front known value).2

theorem ocr_words {t : Bytes}
    (word : ocrWord "true" (some (c :: t)) ∨ ocrWord "false" (some (c :: t)) ∨ ocrWord "null" (some (c :: t))) :
    ∃ word w u, (word, w) ∈ wordTrees ∧ c :: t = word ++ u ∧ word.length = if c = 0x74 then 4 else if c = 0x66 then 5 else 4 := by
  obtain ⟨yes, no, null⟩ := words_written
  rcases word with front | front | front
  · rw [ocrWord, yes] at front
    obtain ⟨u, shape⟩ := List.isPrefixOf_iff_prefix.mp front
    have same : 0x74 = c := (List.cons.inj shape).1
    exact ⟨_, _, u, List.mem_cons_self, shape.symm, by rw [if_pos same.symm]; rfl⟩
  · rw [ocrWord, no] at front
    obtain ⟨u, shape⟩ := List.isPrefixOf_iff_prefix.mp front
    have same : 0x66 = c := (List.cons.inj shape).1
    exact ⟨_, _, u, List.mem_cons_of_mem _ List.mem_cons_self, shape.symm, by rw [← same]; rfl⟩
  · rw [ocrWord, null] at front
    obtain ⟨u, shape⟩ := List.isPrefixOf_iff_prefix.mp front
    have same : 0x6e = c := (List.cons.inj shape).1
    exact ⟨_, _, u, List.mem_cons_of_mem _ (List.mem_cons_of_mem _ List.mem_cons_self), shape.symm, by rw [← same]; rfl⟩

theorem words_found {r word : Bytes} (known : (word, w) ∈ wordTrees) (shape : s = word ++ r) :
    ocrWord "true" (some s) ∨ ocrWord "false" (some s) ∨ ocrWord "null" (some s) := by
  obtain ⟨yes, no, null⟩ := words_written
  rw [ocrWord, ocrWord, ocrWord, yes, no, null, shape]
  rcases word_cases known with ⟨rfl, _⟩ | ⟨rfl, _⟩ | ⟨rfl, _⟩
  · exact .inl (List.isPrefixOf_iff_prefix.mpr (List.prefix_append _ _))
  · exact .inr (.inl (List.isPrefixOf_iff_prefix.mpr (List.prefix_append _ _)))
  · exact .inr (.inr (List.isPrefixOf_iff_prefix.mpr (List.prefix_append _ _)))

theorem value_step (kids : KidsJudged fuel) (fields : FieldsJudged fuel) : ValueJudged (fuel + 1) := by
  intro s depth enough
  by_cases deep : depth > 64
  · have read : ocrJsonValue (fuel + 1) depth (some s) = .ok none := by rw [ocrJsonValue, if_pos deep]
    rw [read]
    apply judges_none
    rintro r ⟨tree, _, bound⟩
    omega
  have shallow : depth ≤ 64 := Nat.le_of_not_lt deep
  have small : (jWs s).length ≤ s.length := (List.dropWhile_suffix _).length_le
  have here (w : Bytes) (small : w.length ≤ s.length) : Judges FloatText.Stop w (Here depth w) ((peek (some w)).bind fun ch =>
      if ch = 0x22 then ocrJsonString (some w)
      else if ch = 0x2d ∨ isDigit ch then ocrJsonNumber (some w)
      else if ocrWord "true" (some w) ∨ ocrWord "false" (some w) ∨ ocrWord "null" (some w) then
        .ok (some (forward (if ch = 0x74 then 4 else if ch = 0x66 then 5 else 4) (some w)))
      else if ch = 0x5b then
        (ocrJsonWs (step (some w))).andThen fun c =>
          (peek c).bind fun ch => if ch = 0x5d then .ok (some (step c)) else ocrJsonKids fuel depth c
      else if ch = 0x7b then
        (ocrJsonWs (step (some w))).andThen fun c =>
          (peek c).bind fun ch => if ch = 0x7d then .ok (some (step c)) else ocrJsonFields fuel depth c
      else .ok none) := by
    cases w with
    | nil =>
      apply judges_none
      rintro r ⟨tree, value, _⟩
      obtain ⟨c, t, shape, _⟩ := value_starts value
      cases shape
    | cons c t =>
      rw [List.length_cons] at small
      change Judges _ _ _ (if c = 0x22 then _ else if c = 0x2d ∨ isDigit c then _ else if _ then
        .ok (some (forward (if c = 0x74 then 4 else if c = 0x66 then 5 else 4) (some (c :: t))))
        else if c = 0x5b then _ else if c = 0x7b then _ else _)
      by_cases quote : c = 0x22
      · rw [if_pos quote, quote]
        exact string_here shallow t
      rw [if_neg quote]
      by_cases number : c = 0x2d ∨ isDigit c = true
      · rw [if_pos number]
        exact number_here shallow number t
      rw [if_neg number]
      by_cases word : ocrWord "true" (some (c :: t)) ∨ ocrWord "false" (some (c :: t)) ∨ ocrWord "null" (some (c :: t))
      · rw [if_pos word]
        obtain ⟨word, w, u, known, shape, length⟩ := ocr_words word
        rw [← length, shape]
        exact word_here shallow known u
      rw [if_neg word]
      by_cases bracket : c = 0x5b
      · rw [if_pos bracket, bracket]
        exact array_here shallow kids (by omega)
      rw [if_neg bracket]
      by_cases brace : c = 0x7b
      · rw [if_pos brace, brace]
        exact object_here shallow fields (by omega)
      rw [if_neg brace]
      apply judges_none
      rintro r ⟨tree, value, _⟩
      have digits : ∀ c ∈ (Tree.num false 0 0).leads, c = 0x2d ∨ isDigit c = true := by decide
      rcases lead_kinds (first_byte value) with ⟨same, _⟩ | ⟨same, _⟩ | ⟨same, _⟩ | ⟨same, _⟩ | ⟨_, words⟩
      · exact quote same
      · exact number (digits c same)
      · exact bracket same
      · exact brace same
      · obtain ⟨name, known, shape⟩ := word_value words value
        exact word (words_found known shape)
  have whole := here (jWs s) small
  rw [ocrJsonValue, if_neg deep]
  exact judges_congr (fun r => Iff.rfl) (List.dropWhile_suffix _) whole

theorem strict_judges (fuel : Nat) : ValueJudged fuel ∧ KidsJudged fuel ∧ FieldsJudged fuel := by
  induction fuel with
  | zero => exact ⟨fun s depth enough => by omega, fun s depth enough => by omega, fun s depth enough => by omega⟩
  | succ fuel ih =>
    obtain ⟨values, kids, fields⟩ := ih
    exact ⟨value_step kids fields, kids_step values kids, fields_step values fields⟩

def Whole (s r : Bytes) : Prop :=
  ∃ fields u, Value (jWs s) (.obj fields) u ∧ (Tree.obj fields).nesting ≤ 64 ∧ r = jWs u

theorem whole_judges (s : Bytes) : Judges (fun r => r = []) s (Whole s) ((ocrJsonWs (some s)).andThen fun c =>
    (peek c).bind fun ch => if ch ≠ 0x7b then .ok none else (ocrJsonValue (fuelFor s) 0 c).andThen ocrJsonWs) := by
  have shown : ((ocrJsonWs (some s)).andThen fun c => (peek c).bind fun ch =>
      if ch ≠ 0x7b then .ok none else (ocrJsonValue (fuelFor s) 0 c).andThen ocrJsonWs) =
      if (jWs s).headD 0 ≠ 0x7b then .ok none else (ocrJsonValue (fuelFor s) 0 (some (jWs s))).andThen ocrJsonWs := rfl
  have skipped : jWs (jWs s) = jWs s := List.dropWhile_idempotent _ _
  have suffix : jWs s <:+ s := List.dropWhile_suffix _
  have small := suffix.length_le
  rw [shown]
  by_cases brace : (jWs s).headD 0 = 0x7b
  · rw [if_neg (not_not.mpr brace)]
    have value := (strict_judges (fuelFor s)).1 (jWs s) 0 (by rw [fuelFor]; omega)
    have ended : ∀ t r, r = jWs t → r = [] → FloatText.Stop t := by
      intro t r same none_
      have blank := ws_drop t
      rw [← jWs, ← same, none_] at blank
      exact ws_end_stop blank
    have both := judges_then value ended fun t _ _ => judges_weaken (ws_judges t) fun _ _ => trivial
    refine judges_congr (fun r => ?_) suffix both
    constructor
    · rintro ⟨fields, u, value, bound, behind⟩
      exact ⟨u, ⟨.obj fields, by rw [skipped]; exact value, by omega⟩, behind⟩
    · rintro ⟨u, ⟨tree, value, bound⟩, behind⟩
      rw [skipped] at value
      cases whole : jWs s with
      | nil =>
        rw [whole] at brace
        cases brace
      | cons c t =>
        rw [whole] at brace value
        have same : c = 0x7b := brace
        rw [same] at value
        obtain ⟨fields, rfl, _⟩ := value_object_iff.mp value
        rw [← same, ← whole] at value
        exact ⟨fields, u, value, by omega, behind⟩
  · rw [if_pos brace]
    apply judges_none
    rintro r ⟨fields, u, value, _⟩
    obtain ⟨t, shape, _⟩ := value_obj value
    rw [shape] at brace
    exact brace rfl

theorem denotes_iff {tree : Tree} : Denotes s tree ↔ ∃ r, Value (jWs s) tree r ∧ jWs r = [] := by
  constructor
  · rintro ⟨t, r, blank, value, behind⟩
    rw [jWs, ws_skip blank fun c front => (value_front value c front).1]
    exact ⟨r, value, ws_skip behind fun c front => by cases front⟩
  · rintro ⟨r, value, behind⟩
    exact ⟨jWs s, r, ws_drop s, value, behind ▸ ws_drop r⟩

theorem text_complete_iff (raw : Bytes) : ∃ answer, ocrJsonTextComplete (some raw) = .ok answer ∧
    (answer = true ↔ ∃ fields, Denotes (cstr raw) (.obj fields) ∧ (Tree.obj fields).nesting ≤ 64) := by
  have judges := whole_judges (cstr raw)
  have accepted : (∃ fields, Denotes (cstr raw) (.obj fields) ∧ (Tree.obj fields).nesting ≤ 64) ↔ Whole (cstr raw) [] := by
    constructor
    · rintro ⟨fields, denotes, bound⟩
      obtain ⟨r, value, behind⟩ := denotes_iff.mp denotes
      exact ⟨fields, r, value, bound, behind.symm⟩
    · rintro ⟨fields, r, value, bound, behind⟩
      exact ⟨fields, denotes_iff.mpr ⟨r, value, behind.symm⟩, bound⟩
  rw [accepted]
  rcases judges.ends with refused | ⟨r, rest, read, inside⟩
  · refine ⟨false, by rw [ocrJsonTextComplete, refused]; rfl, (fun yes => absurd yes Bool.false_ne_true), fun whole => ?_⟩
    rw [judges.complete [] whole rfl] at refused
    cases refused
  · refine ⟨r.headD 0 == 0, by rw [ocrJsonTextComplete, read]; rfl, ?_⟩
    constructor
    · intro stop
      cases r with
      | nil => exact inside
      | cons c r =>
        have nul : c = 0 := eq_of_beq stop
        rw [nul] at rest
        exact absurd (rest.subset List.mem_cons_self) (cstr_text raw)
    · intro whole
      have same := judges.complete [] whole rfl
      rw [read] at same
      cases same
      rfl

end Run

end SamosaChat.OcrJson
