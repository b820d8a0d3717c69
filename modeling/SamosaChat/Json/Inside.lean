import SamosaChat.Json.Parse

set_option autoImplicit false

namespace SamosaChat.Json

open Utf8 Text FloatText

-- The texts whose constructs are all spelled in full, each with the text behind it: literals and
-- escapes have all their bytes, and a key does not begin at the end. The rest is as lenient as the parser.

def four (s : Bytes) : Nat :=
  strtoul16 (cstr (s.take 4))

def followed (s : Bytes) : Bool :=
  isHigh (four s) && (s.drop 4).take 2 == [0x5c, 0x75]

def paired (s : Bytes) : Bool :=
  followed s && decide (10 ≤ s.length) && isLow (four (s.drop 6))

inductive Chars : Bytes → Bytes → Prop
  | stop : Chars [] []
  | quote (s : Bytes) : Chars (0x22 :: s) s
  | plain {c : UInt8} {s r : Bytes} (inner : c ≠ 0x22) (other : c ≠ 0x5c) (rest : Chars s r) : Chars (c :: s) r
  | last : Chars [0x5c] []
  | escape {e : UInt8} {s r : Bytes} (other : e ≠ 0x75) (rest : Chars s r) : Chars (0x5c :: e :: s) r
  | code {s r : Bytes} (whole : 4 ≤ s.length) (rest : Chars (s.drop (if paired s then 10 else 4)) r) :
      Chars (0x5c :: 0x75 :: s) r

mutual

inductive Value : Bytes → Bytes → Prop
  | str {s r : Bytes} (head : (jWs s).headD 0 = 0x22) (rest : Chars ((jWs s).drop 1) r) : Value s r
  | emptyObj {s : Bytes} (head : (jWs s).headD 0 = 0x7b) (close : (jWs ((jWs s).drop 1)).head? = some 0x7d) :
      Value s ((jWs ((jWs s).drop 1)).drop 1)
  | obj {s r : Bytes} (head : (jWs s).headD 0 = 0x7b) (open_ : (jWs ((jWs s).drop 1)).head? ≠ some 0x7d)
      (rest : Fields (jWs ((jWs s).drop 1)) r) : Value s r
  | emptyArr {s : Bytes} (head : (jWs s).headD 0 = 0x5b) (close : (jWs ((jWs s).drop 1)).head? = some 0x5d) :
      Value s ((jWs ((jWs s).drop 1)).drop 1)
  | arr {s r : Bytes} (head : (jWs s).headD 0 = 0x5b) (open_ : (jWs ((jWs s).drop 1)).head? ≠ some 0x5d)
      (rest : Kids (jWs ((jWs s).drop 1)) r) : Value s r
  | yes {s : Bytes} (head : (jWs s).headD 0 = 0x74) (whole : 4 ≤ (jWs s).length) : Value s ((jWs s).drop 4)
  | no {s : Bytes} (head : (jWs s).headD 0 = 0x66) (whole : 5 ≤ (jWs s).length) : Value s ((jWs s).drop 5)
  | null {s : Bytes} (head : (jWs s).headD 0 = 0x6e) (whole : 4 ≤ (jWs s).length) : Value s ((jWs s).drop 4)
  | num {s : Bytes} (other : (jWs s).headD 0 ∉ [0x22, 0x7b, 0x5b, 0x74, 0x66, 0x6e]) : Value s (strtod (jWs s)).2

inductive Kids : Bytes → Bytes → Prop
  | last {s t : Bytes} (kid : Value s t) (end_ : (delimiter 0x5d t).1 = false) : Kids s (delimiter 0x5d t).2
  | more {s t r : Bytes} (kid : Value s t) (comma : (delimiter 0x5d t).1 = true) (rest : Kids (delimiter 0x5d t).2 r) :
      Kids s r

inductive Fields : Bytes → Bytes → Prop
  | last {s u t : Bytes} (key : jWs s ≠ []) (name : Chars ((jWs s).drop 1) u) (kid : Value (colon u) t)
      (end_ : (delimiter 0x7d t).1 = false) : Fields s (delimiter 0x7d t).2
  | more {s u t r : Bytes} (key : jWs s ≠ []) (name : Chars ((jWs s).drop 1) u) (kid : Value (colon u) t)
      (comma : (delimiter 0x7d t).1 = true) (rest : Fields (delimiter 0x7d t).2 r) : Fields s r

end

def Spelled (text : Bytes) : Prop :=
  ∃ rest, Value (cstr text) rest

def Settles {α : Type} (grammar : Bytes → Prop) (size : Nat) : Except Stop (α × Bytes) → Prop
  | .ok (_, r) => (∀ r', grammar r' ↔ r' = r) ∧ r.length ≤ size
  | .error .outside => ∀ r, ¬grammar r
  | .error .fuel => False

section

variable {α β : Type} {grammar grammar' : Bytes → Prop} {size : Nat} {x : Except Stop (α × Bytes)}

theorem settles_congr (same : ∀ r, grammar' r ↔ grammar r) (settles : Settles grammar size x) : Settles grammar' size x := by
  cases x with
  | error stop =>
    cases stop with
    | outside => exact fun r inside => settles r ((same r).mp inside)
    | fuel => exact settles
  | ok out => exact ⟨fun r => (same r).trans (settles.1 r), settles.2⟩

theorem settles_bind {next : Bytes → Bytes → Prop} {f : α × Bytes → Except Stop (β × Bytes)} {size' : Nat}
    (settles : Settles grammar size x) (after : ∀ a t, t.length ≤ size → Settles (next t) size' (f (a, t))) :
    Settles (fun r => ∃ t, grammar t ∧ next t r) size' (x.bind f) := by
  cases x with
  | error stop =>
    cases stop with
    | outside =>
      rintro r ⟨t, inside, _⟩
      exact settles t inside
    | fuel => exact settles
  | ok out =>
    obtain ⟨a, t⟩ := out
    refine settles_congr (fun r => ?_) (after a t settles.2)
    constructor
    · rintro ⟨t', inside, rest⟩
      rwa [(settles.1 t').mp inside] at rest
    · exact fun rest => ⟨t, (settles.1 t).mpr rfl, rest⟩

theorem settles_map {f : α → β} (settles : Settles grammar size x) : Settles grammar size (x.map fun (a, t) => (f a, t)) := by
  cases x with
  | error stop =>
    cases stop with
    | outside => exact settles
    | fuel => exact settles
  | ok out => exact settles

theorem settles_weaken {size' : Nat} (settles : Settles grammar size x) (most : size ≤ size') : Settles grammar size' x := by
  cases x with
  | error stop =>
    cases stop with
    | outside => exact settles
    | fuel => exact settles
  | ok out => exact ⟨settles.1, settles.2.trans most⟩

theorem settles_ok {a : α} {t : Bytes} (same : ∀ r, grammar r ↔ r = t) (most : t.length ≤ size) :
    Settles grammar size (.ok (a, t)) :=
  ⟨same, most⟩

end

theorem read_at_drop (s : Bytes) (i k : Nat) (inside : i + k ≤ s.length) : readAt s (i + k) = .ok ((s.drop i).getD k 0) := by
  rw [readAt, if_pos inside]
  simp [List.getD_eq_getElem?_getD]

variable {s : Bytes}

theorem hex_four_ok {i : Nat} (whole : i + 4 ≤ s.length) : hexFour s i = .ok (four (s.drop i)) := by
  have size : (s.drop i).length = s.length - i := List.length_drop
  have reads := read_at_drop s i
  unfold hexFour four
  rw [reads 1 (by omega), reads 2 (by omega), reads 3 (by omega), ← Nat.add_zero i, reads 0 (by omega), Nat.add_zero]
  match s.drop i, size with
  | [], size => simp at size; omega
  | [_], size => simp at size; omega
  | [_, _], size => simp at size; omega
  | [_, _, _], size => simp at size; omega
  | a :: b :: c :: d :: rest, _ => rfl

theorem hex_four_cases (s : Bytes) (i : Nat) : (∃ n, hexFour s i = .ok n) ∨ hexFour s i = .error .outside := by
  unfold hexFour readAt
  split_ifs
  all_goals first | exact .inr rfl | exact .inl ⟨_, rfl⟩

theorem unicode_cut (cut : s.length < 4) : unicodeEscape s = .error .outside := by
  unfold unicodeEscape advance
  rw [if_neg (by omega)]
  rcases hex_four_cases s 0 with ⟨cp, read⟩ | outside
  · rw [read]
    rfl
  · rw [outside]
    rfl

theorem unicode_read (whole : 4 ≤ s.length) :
    unicodeEscape s = (lowHalf (four s) (s.drop 4)).bind fun low =>
      match low with
      | some lo => (advance 6 (s.drop 4)).map fun t => (jPutCode (pair (four s) lo), t)
      | none => .ok (jPutCode (four s), s.drop 4) := by
  unfold unicodeEscape
  rw [hex_four_ok (by omega), advance, if_pos whole]
  refine congrArg (Except.bind (lowHalf (four s) (s.drop 4))) (funext fun low => ?_)
  cases low <;> rfl

theorem unicode_whole (whole : 4 ≤ s.length) (long : followed s = true → 10 ≤ s.length) :
    ∃ bytes, unicodeEscape s = .ok (bytes, s.drop (if paired s then 10 else 4)) := by
  rw [unicode_read whole]
  by_cases follow : followed s = true
  · have size : (s.drop 4).length = s.length - 4 := List.length_drop
    have read : lowHalf (four s) (s.drop 4) =
        .ok (if isLow (four (s.drop 6)) then some (four (s.drop 6)) else none) := by
      refine (if_pos follow).trans ?_
      rw [hex_four_ok (by have := long follow; omega), List.drop_drop]
      rfl
    rw [read]
    by_cases low : isLow (four (s.drop 6)) = true
    · have both : paired s = true := by simp [paired, follow, low, long follow]
      refine ⟨jPutCode (pair (four s) (four (s.drop 6))), ?_⟩
      simp only [low, both, if_true, Except.bind, advance]
      rw [if_pos (by have := long follow; omega), List.drop_drop]
      rfl
    · have single : paired s = false := by simp [paired, low]
      refine ⟨jPutCode (four s), ?_⟩
      simp only [low, single, Bool.false_eq_true, if_false, Except.bind]
  · have single : paired s = false := by simp [paired, follow]
    refine ⟨jPutCode (four s), ?_⟩
    have read : lowHalf (four s) (s.drop 4) = .ok none := by
      unfold lowHalf
      exact if_neg follow
    rw [read]
    simp only [single, Bool.false_eq_true, if_false, Except.bind]

theorem unicode_short (follow : followed s = true) (short : s.length < 10) :
    unicodeEscape s = .error .outside ∨ ∃ bytes, unicodeEscape s = .ok (bytes, s.drop 4) := by
  by_cases whole : 4 ≤ s.length
  · rw [unicode_read whole]
    have read : lowHalf (four s) (s.drop 4) =
        (hexFour (s.drop 4) 2).map fun lo => if isLow lo then some lo else none := by
      unfold lowHalf
      exact if_pos follow
    rw [read]
    have size : (s.drop 4).length = s.length - 4 := List.length_drop
    rcases hex_four_cases (s.drop 4) 2 with ⟨lo, ok⟩ | outside
    · rw [ok]
      by_cases low : isLow lo = true
      · left
        simp only [Except.map, low, if_true, Except.bind, advance]
        rw [if_neg (by omega)]
      · right
        simp only [Except.map, low, Bool.false_eq_true, if_false, Except.bind]
        exact ⟨_, rfl⟩
    · rw [outside]
      exact .inl rfl
  · exact .inl (unicode_cut (by omega))

theorem chars_cut {r : Bytes} (cut : s.length < 4) : ¬Chars (0x5c :: 0x75 :: s) r := by
  intro chars
  cases chars with
  | plain _ other _ => exact other rfl
  | escape other _ => exact other rfl
  | code whole _ => omega

theorem followed_shape (follow : followed s = true) : ∃ t, s.drop 4 = 0x5c :: 0x75 :: t := by
  simp only [followed, Bool.and_eq_true, beq_iff_eq] at follow
  match shape : s.drop 4, follow.2 with
  | [], same => simp at same
  | [_], same => simp at same
  | a :: b :: t, same =>
    obtain ⟨rfl, rest⟩ := List.cons.inj same
    obtain ⟨rfl, _⟩ := List.cons.inj rest
    exact ⟨t, rfl⟩

variable {fuel : Nat}

theorem string_loop_step {fuel : Nat} {c : UInt8} {s part t : Bytes} (inner : c ≠ 0x22) (step : stringStep c s = .ok (part, t)) :
    stringLoop (fuel + 1) (c :: s) = (stringLoop fuel t).map fun (rest, u) => (part ++ rest, u) := by
  rw [stringLoop, if_neg inner, step]
  change ((stringLoop fuel t).bind fun out => .ok (part ++ out.1, out.2)) = _
  cases stringLoop fuel t <;> rfl

theorem string_loop_outside {c : UInt8} (inner : c ≠ 0x22)
    (step : stringStep c s = .error .outside) : stringLoop (fuel + 1) (c :: s) = .error .outside := by
  rw [stringLoop, if_neg inner, step]
  rfl

theorem string_step_code (s : Bytes) : stringStep 0x5c (0x75 :: s) = unicodeEscape s := by
  rw [stringStep, if_pos rfl]
  exact if_pos rfl

theorem chars_code {r : Bytes} (whole : 4 ≤ s.length) :
    Chars (0x5c :: 0x75 :: s) r ↔ Chars (s.drop (if paired s then 10 else 4)) r := by
  constructor
  · intro chars
    cases chars with
    | plain _ other _ => exact absurd rfl other
    | escape other _ => exact absurd rfl other
    | code _ rest => exact rest
  · exact .code whole

theorem code_settles (small : s.length + 1 < fuel) (ih : ∀ t, t.length < fuel → Settles (Chars t) t.length (stringLoop fuel t)) :
    Settles (Chars (0x5c :: 0x75 :: s)) (s.length + 2) (stringLoop (fuel + 1) (0x5c :: 0x75 :: s)) := by
  have inner : (0x5c : UInt8) ≠ 0x22 := by decide
  by_cases whole : 4 ≤ s.length
  · by_cases short : followed s = true ∧ s.length < 10
    · -- Neither the scan nor the grammar gets past the cut escape.
      obtain ⟨follow, few⟩ := short
      obtain ⟨t, shape⟩ := followed_shape follow
      have size : (s.drop 4).length = t.length + 2 := by rw [shape]; rfl
      rw [List.length_drop] at size
      have cut : ∀ r, ¬Chars (0x5c :: 0x75 :: s) r := by
        intro r
        have single : paired s = false := by simp [paired]; omega
        rw [chars_code whole, single, if_neg (by simp), shape]
        exact chars_cut (by omega)
      rcases unicode_short follow few with outside | ⟨bytes, ok⟩
      · rw [string_loop_outside inner ((string_step_code s).trans outside)]
        exact cut
      · rw [string_loop_step inner ((string_step_code s).trans ok), shape]
        obtain ⟨fuel, rfl⟩ := Nat.exists_eq_add_of_lt (Nat.lt_of_le_of_lt (Nat.zero_le _) small)
        rw [Nat.zero_add, string_loop_outside inner ((string_step_code t).trans (unicode_cut (by omega)))]
        exact cut
    · obtain ⟨bytes, ok⟩ := unicode_whole whole fun follow => Nat.le_of_not_lt fun few => short ⟨follow, few⟩
      have size : (s.drop (if paired s then 10 else 4)).length ≤ s.length := by simp
      rw [string_loop_step inner ((string_step_code s).trans ok)]
      exact settles_congr (fun r => chars_code whole)
        (settles_weaken (settles_map (ih _ (by omega))) (by omega))
  · rw [string_loop_outside inner ((string_step_code s).trans (unicode_cut (by omega)))]
    exact fun r => chars_cut (by omega)

theorem string_loop_settles (fuel : Nat) : ∀ s : Bytes, s.length < fuel → Settles (Chars s) s.length (stringLoop fuel s) := by
  induction fuel with
  | zero => exact fun s small => absurd small (Nat.not_lt_zero _)
  | succ fuel ih =>
    intro s small
    match s with
    | [] =>
      refine settles_ok (fun r => ⟨fun chars => ?_, ?_⟩) (Nat.le_refl _)
      · cases chars
        rfl
      · rintro rfl
        exact .stop
    | c :: s =>
      rw [List.length_cons] at small ⊢
      by_cases quote : c = 0x22
      · rw [stringLoop, if_pos quote]
        refine settles_ok (fun r => ⟨fun chars => ?_, ?_⟩) (by omega)
        · cases chars with
          | quote => rfl
          | plain inner _ _ => exact absurd quote inner
          | last => exact absurd quote (by decide)
          | escape _ _ => exact absurd quote (by decide)
          | code _ _ => exact absurd quote (by decide)
        · rintro rfl
          rw [quote]
          exact .quote _
      by_cases back : c = 0x5c
      · subst back
        match s with
        | [] =>
          rw [@string_loop_step _ _ _ [0x5c] [] quote rfl]
          refine settles_congr (fun r => ⟨fun chars => ?_, fun chars => ?_⟩)
            (settles_weaken (settles_map (ih [] (by simp at small ⊢; omega))) (by simp))
          · cases chars with
            | plain _ other _ => exact absurd rfl other
            | last => exact .stop
          · cases chars
            exact .last
        | e :: s =>
          rw [List.length_cons] at small ⊢
          by_cases unicode : e = 0x75
          · subst unicode
            exact code_settles (by omega) ih
          · have step : stringStep 0x5c (e :: s) = .ok ([unescape e], s) := by
              rw [stringStep, if_pos rfl]
              exact if_neg unicode
            rw [string_loop_step quote step]
            refine settles_congr (fun r => ⟨fun chars => ?_, .escape unicode⟩)
              (settles_weaken (settles_map (ih s (by omega))) (by omega))
            cases chars with
            | plain _ other _ => exact absurd rfl other
            | escape _ rest => exact rest
            | code _ _ => exact absurd rfl unicode
      · have step : stringStep c s = .ok ([c], s) := if_neg back
        rw [string_loop_step quote step]
        refine settles_congr (fun r => ⟨fun chars => ?_, .plain quote back⟩)
          (settles_weaken (settles_map (ih s (by omega))) (by omega))
        cases chars with
        | quote => exact absurd rfl quote
        | plain _ _ rest => exact rest
        | last => exact absurd rfl back
        | escape _ _ => exact absurd rfl back
        | code _ _ => exact absurd rfl back

theorem str_raw_settles (s : Bytes) : Settles (fun r => s ≠ [] ∧ Chars (s.drop 1) r) (s.length - 1) (jParseStrRaw s) := by
  cases s with
  | nil => exact fun r inside => inside.1 rfl
  | cons c s =>
    have loop := string_loop_settles (s.length + 1) s (Nat.lt_succ_self _)
    have same : jParseStrRaw (c :: s) = (stringLoop (s.length + 1) s).map fun (bytes, t) => (cstr bytes, t) := by
      change ((stringLoop (s.length + 1) s).bind fun out => .ok (cstr out.1, out.2)) = _
      cases stringLoop (s.length + 1) s <;> rfl
    rw [same]
    exact settles_congr (fun r => by simp) (settles_map loop)

theorem literal_settles (width : Nat) (value : Jval) (s : Bytes) :
    Settles (fun r => width ≤ s.length ∧ r = s.drop width) s.length (literal width value s) := by
  unfold literal advance
  by_cases whole : width ≤ s.length
  · rw [if_pos whole]
    exact settles_ok (fun r => by simp [whole]) (by simp)
  · rw [if_neg whole]
    exact fun r inside => whole inside.1

theorem ws_length (s : Bytes) : (jWs s).length ≤ s.length :=
  drop_while_length isSpace s

theorem colon_length (s : Bytes) : (colon s).length ≤ s.length := by
  have most := ws_length s
  unfold colon
  dsimp only
  split_ifs
  · simp only [List.length_drop]
    omega
  · exact most

theorem delimiter_length (close : UInt8) (s : Bytes) :
    (delimiter close s).2.length ≤ s.length ∧ ((delimiter close s).1 = true → (delimiter close s).2.length < s.length) := by
  have most := ws_length s
  unfold delimiter
  dsimp only
  split_ifs with comma bracket
  · have some_ : jWs s ≠ [] := by
      intro none_
      rw [none_] at comma
      cases comma
    have size := List.length_pos_iff.mpr some_
    simp only [List.length_drop]
    omega
  · simp only [List.length_drop, false_imp_iff, and_true]
    omega
  · simp only [false_imp_iff, and_true]
    exact most

theorem kids_iff (s r : Bytes) : Kids s r ↔ ∃ t, Value s t ∧
      (if (delimiter 0x5d t).1 = true then Kids (delimiter 0x5d t).2 r else r = (delimiter 0x5d t).2) := by
  constructor
  · intro kids
    cases kids with
    | last kid end_ => exact ⟨_, kid, by simp [end_]⟩
    | more kid comma rest => exact ⟨_, kid, by simp [comma, rest]⟩
  · rintro ⟨t, kid, after⟩
    split_ifs at after with comma
    · exact .more kid comma after
    · rw [after]
      exact .last kid (by simpa using comma)

theorem fields_iff (s r : Bytes) : Fields s r ↔ ∃ u, (jWs s ≠ [] ∧ Chars ((jWs s).drop 1) u) ∧ ∃ t, Value (colon u) t ∧
      (if (delimiter 0x7d t).1 = true then Fields (delimiter 0x7d t).2 r else r = (delimiter 0x7d t).2) := by
  constructor
  · intro fields
    cases fields with
    | last key name kid end_ => exact ⟨_, ⟨key, name⟩, _, kid, by simp [end_]⟩
    | more key name kid comma rest => exact ⟨_, ⟨key, name⟩, _, kid, by simp [comma, rest]⟩
  · rintro ⟨u, ⟨key, name⟩, t, kid, after⟩
    split_ifs at after with comma
    · exact .more key name kid comma after
    · rw [after]
      exact .last key name kid (by simpa using comma)

theorem value_iff (s r : Bytes) : Value s r ↔ if (jWs s).headD 0 = 0x22 then Chars ((jWs s).drop 1) r
      else if (jWs s).headD 0 = 0x7b then if (jWs ((jWs s).drop 1)).head? = some 0x7d then r = (jWs ((jWs s).drop 1)).drop 1
        else Fields (jWs ((jWs s).drop 1)) r else if (jWs s).headD 0 = 0x5b then
        if (jWs ((jWs s).drop 1)).head? = some 0x5d then r = (jWs ((jWs s).drop 1)).drop 1 else Kids (jWs ((jWs s).drop 1)) r
      else if (jWs s).headD 0 = 0x74 then 4 ≤ (jWs s).length ∧ r = (jWs s).drop 4
      else if (jWs s).headD 0 = 0x66 then 5 ≤ (jWs s).length ∧ r = (jWs s).drop 5
      else if (jWs s).headD 0 = 0x6e then 4 ≤ (jWs s).length ∧ r = (jWs s).drop 4 else r = (strtod (jWs s)).2 := by
  constructor
  · intro value
    cases value with
    | str head rest => rwa [if_pos head]
    | emptyObj head close => rw [head, if_neg (by decide), if_pos rfl, if_pos close]
    | obj head open_ rest => rwa [head, if_neg (by decide), if_pos rfl, if_neg open_]
    | emptyArr head close => rw [head, if_neg (by decide), if_neg (by decide), if_pos rfl, if_pos close]
    | arr head open_ rest => rwa [head, if_neg (by decide), if_neg (by decide), if_pos rfl, if_neg open_]
    | yes head whole =>
      rw [head, if_neg (by decide), if_neg (by decide), if_neg (by decide), if_pos rfl]
      exact ⟨whole, rfl⟩
    | no head whole =>
      rw [head, if_neg (by decide), if_neg (by decide), if_neg (by decide), if_neg (by decide), if_pos rfl]
      exact ⟨whole, rfl⟩
    | null head whole =>
      rw [head, if_neg (by decide), if_neg (by decide), if_neg (by decide), if_neg (by decide), if_neg (by decide), if_pos rfl]
      exact ⟨whole, rfl⟩
    | num other =>
      simp only [List.mem_cons, List.not_mem_nil, or_false, not_or] at other
      obtain ⟨str, obj, arr, yes, no, null⟩ := other
      rw [if_neg str, if_neg obj, if_neg arr, if_neg yes, if_neg no, if_neg null]
  · intro shape
    split_ifs at shape with str obj close arr close yes no null
    · exact .str str shape
    · rw [shape]
      exact .emptyObj obj close
    · exact .obj obj (by assumption) shape
    · rw [shape]
      exact .emptyArr arr close
    · exact .arr arr (by assumption) shape
    · rw [shape.2]
      exact .yes yes shape.1
    · rw [shape.2]
      exact .no no shape.1
    · rw [shape.2]
      exact .null null shape.1
    · rw [shape]
      refine .num ?_
      simp only [List.mem_cons, List.not_mem_nil, or_false, not_or]
      exact ⟨str, obj, arr, yes, no, null⟩

def Settled (fuel : Nat) : Prop :=
  (∀ s : Bytes, 2 * s.length + 2 ≤ fuel → Settles (Value s) s.length (jParseVal fuel s)) ∧
    (∀ s : Bytes, 2 * s.length + 3 ≤ fuel → Settles (Kids s) s.length (jParseKids fuel s)) ∧
    ∀ s : Bytes, 2 * s.length + 3 ≤ fuel → Settles (Fields s) s.length (jParseFields fuel s)

theorem kids_settles (ih : Settled fuel) (s : Bytes) (enough : 2 * s.length + 3 ≤ fuel + 1) :
    Settles (Kids s) s.length (jParseKids (fuel + 1) s) := by
  refine settles_congr (kids_iff s) (settles_bind (ih.1 s (by omega)) fun val t short => ?_)
  obtain ⟨most, less⟩ := delimiter_length 0x5d t
  by_cases comma : (delimiter 0x5d t).1 = true
  · simp only [comma, if_true]
    have small := less comma
    exact settles_weaken (settles_map (f := (val :: ·)) (ih.2.1 _ (by omega))) (by omega)
  · simp only [comma]
    exact settles_ok (fun r => Iff.rfl) (by omega)

theorem fields_settles (ih : Settled fuel) (s : Bytes) (enough : 2 * s.length + 3 ≤ fuel + 1) :
    Settles (Fields s) s.length (jParseFields (fuel + 1) s) := by
  have ws := ws_length s
  by_cases none_ : jWs s = []
  · have outside : jParseFields (fuel + 1) s = .error .outside := by
      rw [jParseFields, none_]
      rfl
    rw [outside]
    intro r fields
    obtain ⟨_, ⟨key, _⟩, _⟩ := (fields_iff s r).mp fields
    exact key none_
  have size := List.length_pos_iff.mpr none_
  refine settles_congr (fields_iff s) (settles_bind (str_raw_settles (jWs s)) fun key u short => ?_)
  have after := colon_length u
  refine settles_weaken (settles_bind (ih.1 (colon u) (by omega)) fun val t short' => ?_) (by omega)
  obtain ⟨most, less⟩ := delimiter_length 0x7d t
  by_cases comma : (delimiter 0x7d t).1 = true
  · simp only [comma, if_true]
    have small := less comma
    exact settles_weaken (settles_map (f := ((key, val) :: ·)) (ih.2.2 _ (by omega))) (by omega)
  · simp only [comma]
    exact settles_ok (fun r => Iff.rfl) (by omega)

theorem val_settles (ih : Settled fuel) (s : Bytes) (enough : 2 * s.length + 2 ≤ fuel + 1) :
    Settles (Value s) s.length (jParseVal (fuel + 1) s) := by
  have ws := ws_length s
  have inner : (jWs ((jWs s).drop 1)).length ≤ (jWs s).length - 1 := by
    simpa using ws_length ((jWs s).drop 1)
  have open_ : ∀ c, (jWs s).headD 0 = c → c ≠ 0 → 0 < (jWs s).length := by
    rintro c head other
    refine List.length_pos_iff.mpr fun none_ => other ?_
    rw [← head, none_]
    rfl
  have past : ((jWs ((jWs s).drop 1)).drop 1).length ≤ s.length := by
    rw [List.length_drop]
    omega
  refine settles_congr (value_iff s) ?_
  rw [jParseVal]
  dsimp only
  split_ifs with str obj close arr close yes no null
  · have some_ : jWs s ≠ [] := List.length_pos_iff.mp (open_ _ str (by decide))
    exact settles_weaken (settles_congr (fun r => by simp [some_]) (settles_map (str_raw_settles (jWs s)))) (by omega)
  · exact settles_ok (fun r => Iff.rfl) past
  · have some_ := open_ _ obj (by decide)
    exact settles_weaken (settles_map (ih.2.2 _ (by omega))) (by omega)
  · exact settles_ok (fun r => Iff.rfl) past
  · have some_ := open_ _ arr (by decide)
    exact settles_weaken (settles_map (ih.2.1 _ (by omega))) (by omega)
  · exact settles_weaken (literal_settles 4 _ (jWs s)) ws
  · exact settles_weaken (literal_settles 5 _ (jWs s)) ws
  · exact settles_weaken (literal_settles 4 _ (jWs s)) ws
  · exact settles_ok (fun r => Iff.rfl) ((strtod_length (jWs s)).trans ws)

theorem settled (fuel : Nat) : Settled fuel := by
  induction fuel with
  | zero => exact ⟨fun s less => by omega, fun s less => by omega, fun s less => by omega⟩
  | succ fuel ih => exact ⟨val_settles ih, kids_settles ih, fields_settles ih⟩

theorem parse_settles (text : Bytes) : Settles (Value (cstr text)) (cstr text).length (jsonParse text) :=
  (settled _).1 (cstr text) (Nat.le_refl _)

def Inside (text : Bytes) : Prop :=
  jsonParse text ≠ .error .outside

instance (text : Bytes) : Decidable (Inside text) :=
  match parsed : jsonParse text with
  | .error .outside => .isFalse fun stays => stays parsed
  | .error .fuel => .isTrue fun outside => by cases parsed.symm.trans outside
  | .ok _ => .isTrue fun outside => by cases parsed.symm.trans outside

-- The parser ends on every text. It stays inside exactly those that spell their constructs in full.
theorem parser_inside (text : Bytes) : jsonParse text ≠ .error .fuel ∧ (Inside text ↔ Spelled text) := by
  have settles := parse_settles text
  unfold Inside Spelled
  cases parsed : jsonParse text with
  | error stop =>
    rw [parsed] at settles
    cases stop with
    | fuel => exact settles.elim
    | outside =>
      refine ⟨by simp, fun stays => absurd rfl stays, fun spelled => ?_⟩
      obtain ⟨r, value⟩ := spelled
      exact absurd value (settles r)
  | ok out =>
    rw [parsed] at settles
    exact ⟨by simp, fun _ => ⟨out.2, (settles.1 out.2).mpr rfl⟩, fun _ => by simp⟩

-- A literal that is cut.
theorem cut_literal_outside : ¬Inside (utf8 "t") := by
  decide

example : ¬Inside (utf8 "\x7b\"a\":1,") ∧ ¬Inside (utf8 "\"\\u12") ∧ Inside (utf8 "[1,tru e") := by
  decide +kernel

end SamosaChat.Json
