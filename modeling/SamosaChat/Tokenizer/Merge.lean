import SamosaChat.Tokenizer.RoundTrip
import SamosaChat.Lib.PairMerge
import Mathlib.Data.List.Find

set_option autoImplicit false

namespace SamosaChat.Tokenizer

open Utf8 Text Slots Probing PairMerge

structure Symbols where
  soff : Nat → Nat
  slen : Nat → Nat
  ns : Nat

def noSymbols : Symbols :=
  { soff := fun _ => 0, slen := fun _ => 0, ns := 0 }

-- The initial symbols, where both arrays have this room. None for a write outside of it.
def fillSymbols (room : Nat) : Nat → Nat → Bytes → Symbols → Option Symbols
  | 0, _, _, symbols => some symbols
  | _, _, [], symbols => some symbols
  | rounds + 1, i, c :: rest, symbols =>
    if symbols.ns < room then
      let k := (u8Next c rest).2
      fillSymbols room rounds (i + k) ((c :: rest).drop k)
        { soff := write symbols.soff symbols.ns i, slen := write symbols.slen symbols.ns k, ns := symbols.ns + 1 }
    else none

-- The bytes of symbol i. None for a read outside of the string.
def slice (s : Bytes) (symbols : Symbols) (i : Nat) : Option Bytes :=
  if symbols.soff i + symbols.slen i ≤ s.length then some ((s.drop (symbols.soff i)).take (symbols.slen i)) else none

-- The key of symbols i and i + 1, written in kbuf.
def kbufKey (s : Bytes) (symbols : Symbols) (i : Nat) : Option Bytes := do
  let left ← slice s symbols i
  let right ← slice s symbols (i + 1)
  if left.length + 1 + right.length ≤ 2 * s.length + 2 then some (left ++ 0 :: right) else none

def intMax : Nat := 2 ^ 31 - 1

-- best and bp: INT_MAX and none before the first pair.
structure Best where
  best : Nat
  bp : Option Nat

def Best.look (found : Best) (i : Nat) : Option Nat → Best
  | some rk => if rk < found.best then { best := rk, bp := some i } else found
  | none => found

def scanPairs (merges : Hmap) (s : Bytes) (symbols : Symbols) : Nat → Nat → Best → Option Best
  | 0, _, found => some found
  | left + 1, i, found =>
    (kbufKey s symbols i).bind fun key => scanPairs merges s symbols left (i + 1) (found.look i (hmGet merges key))

def shiftDown (cells : Nat → Nat) : Nat → Nat → Nat → Nat
  | 0, _ => cells
  | count + 1, j => shiftDown (write cells j (cells (j + 1))) count (j + 1)

def fuse (symbols : Symbols) (bp : Nat) : Symbols :=
  let slen := write symbols.slen bp (symbols.soff (bp + 1) + symbols.slen (bp + 1) - symbols.soff bp)
  let count := symbols.ns - 1 - (bp + 1)
  { soff := shiftDown symbols.soff count (bp + 1), slen := shiftDown slen count (bp + 1), ns := symbols.ns - 1 }

inductive Round
  | merged (symbols : Symbols)
  | ended

def mergeRound (merges : Hmap) (s : Bytes) (symbols : Symbols) : Option Round :=
  (scanPairs merges s symbols (symbols.ns - 1) 0 { best := intMax, bp := none }).map fun found =>
    match found.bp with
    | some bp => .merged (fuse symbols bp)
    | none => .ended

def mergeArrays (merges : Hmap) (s : Bytes) : Nat → Symbols → Option Symbols
  | limit, symbols =>
    match mergeRound merges s symbols, limit with
    | some .ended, _ => some symbols
    | some (.merged next), limit + 1 => mergeArrays merges s limit next
    | _, _ => none

def startSymbols (s : Bytes) : Option Symbols :=
  fillSymbols (s.length + 1) s.length 0 s noSymbols

-- The segmentation that bpe_piece looks up, as the arrays are when the loop has ended.
def bpeArrays (tok : Tok) (p : Bytes) : Option (List Bytes) :=
  let s := byteString p
  match tok.ignoreMerges, hmGet tok.vocab s with
  | true, some _ => some [s]
  | _, _ => do
    let start ← startSymbols s
    let final ← mergeArrays tok.merges s (start.ns - 1) start
    (List.range final.ns).mapM (slice s final)

def spansOf (symbols : Symbols) : List Span :=
  (List.range symbols.ns).map fun i => { off := symbols.soff i, len := symbols.slen i }

theorem spans_of_length (symbols : Symbols) : (spansOf symbols).length = symbols.ns := by
  rw [spansOf, List.length_map, List.length_range]

theorem spans_of_get (symbols : Symbols) (i : Nat) :
    (spansOf symbols)[i]? = if i < symbols.ns then some { off := symbols.soff i, len := symbols.slen i } else none := by
  rw [spansOf, List.getElem?_map]
  by_cases used : i < symbols.ns
  · rw [if_pos used, List.getElem?_range used]
    rfl
  · rw [if_neg used, List.getElem?_eq_none (by rw [List.length_range]; omega)]
    rfl

theorem spans_of_add (symbols : Symbols) (off len : Nat) :
    spansOf { soff := write symbols.soff symbols.ns off, slen := write symbols.slen symbols.ns len, ns := symbols.ns + 1 } =
      spansOf symbols ++ [{ off := off, len := len }] := by
  have earlier : ∀ i ∈ List.range symbols.ns,
      ({ off := write symbols.soff symbols.ns off i, len := write symbols.slen symbols.ns len i } : Span) =
        { off := symbols.soff i, len := symbols.slen i } := by
    intro i inside
    have other : i ≠ symbols.ns := Nat.ne_of_lt (List.mem_range.mp inside)
    rw [write_other _ _ _ _ other, write_other _ _ _ _ other]
  simp only [spansOf, List.range_succ, List.map_append, List.map_cons, List.map_nil, write_same]
  rw [List.map_congr_left earlier]

theorem fill_spans (room rounds i : Nat) (rest : Bytes) (symbols : Symbols) (free : symbols.ns + rounds ≤ room) :
    ∃ filled, fillSymbols room rounds i rest symbols = some filled ∧
      spansOf filled = spansOf symbols ++ spansFrom i (scanUnits rounds rest) := by
  induction rounds generalizing i rest symbols with
  | zero => exact ⟨symbols, rfl, (List.append_nil _).symm⟩
  | succ rounds ih =>
    cases rest with
    | nil => exact ⟨symbols, rfl, (List.append_nil _).symm⟩
    | cons c rest =>
      obtain ⟨filled, runs, spans⟩ := ih (i + (u8Next c rest).2) ((c :: rest).drop (u8Next c rest).2)
        { soff := write symbols.soff symbols.ns i, slen := write symbols.slen symbols.ns (u8Next c rest).2,
          ns := symbols.ns + 1 } (by simp only; omega)
      have width : ((c :: rest).take (u8Next c rest).2).length = (u8Next c rest).2 :=
        List.length_take_of_le (next_width c rest).2
      refine ⟨filled, ?_, ?_⟩
      · rw [fillSymbols, if_pos (by omega)]
        exact runs
      · rw [spans, spans_of_add, scanUnits, List.append_assoc]
        simp only [spansFrom, width, List.singleton_append]

structure Cut (s : Bytes) (symbols : Symbols) (texts : List Bytes) : Prop where
  spans : spansOf symbols = laid 0 texts
  whole : texts.flatten = s
  some_ : ∀ text ∈ texts, text ≠ []

theorem byte2str_some (b : UInt8) : byte2str b ≠ [] := by
  rcases (reads_back b).reads with ⟨c, same, _⟩ | ⟨c, d, same, _⟩ <;> rw [same] <;> exact List.cons_ne_nil _ _

theorem start_cut (p : Bytes) : ∃ start, startSymbols (byteString p) = some start ∧ Cut (byteString p) start (p.map byte2str) := by
  obtain ⟨start, runs, spans⟩ := fill_spans ((byteString p).length + 1) (byteString p).length 0 (byteString p) noSymbols
    (by simp only [noSymbols]; omega)
  refine ⟨start, runs, ?_, List.flatMap_def.symm, ?_⟩
  · have units_ := spans_laid 0 (units (byteString p))
    rw [units_string, List.map_map] at units_
    rw [spans, ← units, units_string, units_]
    rfl
  · intro text inside
    obtain ⟨b, _, rfl⟩ := List.mem_map.mp inside
    exact byte2str_some b

theorem laid_at (off : Nat) (before : List Bytes) (text : Bytes) (after : List Bytes) :
    (laid off (before ++ text :: after))[before.length]? = some { off := off + before.flatten.length, len := text.length } := by
  induction before generalizing off with
  | nil => rfl
  | cons first before ih =>
    rw [List.cons_append, laid, List.length_cons, List.getElem?_cons_succ, ih, List.flatten_cons, List.length_append, Nat.add_assoc]

section Reading

variable {s : Bytes} {symbols : Symbols} {texts before after : List Bytes} {text a b : Bytes}

theorem Cut.count (cut : Cut s symbols texts) : symbols.ns = texts.length := by
  rw [← spans_of_length, cut.spans, laid_length]

theorem Cut.place (cut : Cut s symbols (before ++ text :: after)) :
    symbols.soff before.length = before.flatten.length ∧ symbols.slen before.length = text.length := by
  have here := laid_at 0 before text after
  have used : before.length < symbols.ns := by
    rw [cut.count, List.length_append, List.length_cons]
    omega
  rw [← cut.spans, spans_of_get, if_pos used, Nat.zero_add] at here
  exact Span.mk.inj (Option.some.inj here)

theorem Cut.slice (cut : Cut s symbols (before ++ text :: after)) : slice s symbols before.length = some text := by
  obtain ⟨off, len⟩ := cut.place
  have whole := cut.whole
  rw [List.flatten_append, List.flatten_cons] at whole
  have inside : before.flatten.length + text.length ≤ s.length := by
    rw [← whole, List.length_append, List.length_append]
    omega
  rw [Tokenizer.slice, off, len, if_pos inside, ← whole, List.drop_left, List.take_left]

theorem Cut.key (cut : Cut s symbols (before ++ a :: b :: after)) : kbufKey s symbols before.length = some (mergeKey a b) := by
  have left := cut.slice
  have right : Tokenizer.slice s symbols (before.length + 1) = some b := by
    have cut' : Cut s symbols ((before ++ [a]) ++ b :: after) := by rwa [List.append_assoc]
    have here := cut'.slice
    rwa [List.length_append] at here
  have short : a.length + b.length ≤ s.length := by
    rw [← cut.whole]
    simp only [List.flatten_append, List.flatten_cons, List.length_append]
    omega
  rw [kbufKey, left, right]
  exact if_pos (by omega)

end Reading

def Best.pair (found : Best) : Option (Nat × Nat) :=
  found.bp.map fun bp => (found.best, bp)

-- No pair yet is INT_MAX, which no rank reaches.
def Best.Sound (found : Best) : Prop :=
  found.bp = none → found.best = intMax

theorem look_sound {found : Best} (sound : found.Sound) (i : Nat) {looked : Option Nat} (fits : ∀ rk, looked = some rk → rk < intMax) :
    (found.look i looked).Sound ∧ (found.look i looked).pair = better found.pair i looked := by
  cases looked with
  | none => exact ⟨sound, rfl⟩
  | some rk =>
    cases bp : found.bp with
    | none =>
      have first : rk < found.best := by
        rw [sound bp]
        exact fits rk rfl
      simp only [Best.look, if_pos first, Best.pair, bp]
      exact ⟨(nomatch ·), rfl⟩
    | some old =>
      simp only [Best.look, Best.pair, bp, Option.map_some, better]
      split_ifs with lower
      · exact ⟨(nomatch ·), rfl⟩
      · exact ⟨sound, by rw [bp]; rfl⟩

theorem scan_pairs {merges : Hmap} {s : Bytes} {symbols : Symbols} (fits : ∀ key rk, hmGet merges key = some rk → rk < intMax)
    (rest before : List Bytes) (cut : Cut s symbols (before ++ rest)) (found : Best) (sound : found.Sound) :
    ∃ found', scanPairs merges s symbols (rest.length - 1) before.length found = some found' ∧
      found'.pair = bestPair merges s before.length found.pair (laid before.flatten.length rest) := by
  induction rest generalizing before found with
  | nil => exact ⟨found, rfl, rfl⟩
  | cons a rest ih =>
    cases rest with
    | nil => exact ⟨found, rfl, rfl⟩
    | cons b rest =>
      obtain ⟨sound', same⟩ := look_sound sound before.length (fits (mergeKey a b))
      have cut' : Cut s symbols ((before ++ [a]) ++ b :: rest) := by rwa [List.append_assoc]
      obtain ⟨found', runs, pair⟩ := ih (before ++ [a]) cut' _ sound'
      refine ⟨found', ?_, ?_⟩
      · rw [List.length_append] at runs
        rw [List.length_cons, Nat.add_sub_cancel, List.length_cons, scanPairs, cut.key]
        exact runs
      · have texts := laid_bytes before.flatten (a :: b :: rest)
        rw [← List.flatten_append, cut.whole] at texts
        simp only [laid, List.map_cons, List.cons.injEq] at texts
        have next : (before ++ [a]).flatten.length = before.flatten.length + a.length := by simp
        have step : bestPair merges s before.length found.pair (laid before.flatten.length (a :: b :: rest)) =
            bestPair merges s (before.length + 1) (better found.pair before.length (hmGet merges (mergeKey a b)))
              (laid (before.flatten.length + a.length) (b :: rest)) := by
          simp only [laid, bestPair]
          rw [texts.1, texts.2.1]
        rw [pair, same, next, step, List.length_append]
        rfl

theorem shift_down (cells : Nat → Nat) (count j i : Nat) :
    shiftDown cells count j i = if j ≤ i ∧ i < j + count then cells (i + 1) else cells i := by
  induction count generalizing cells j with
  | zero => rw [shiftDown, if_neg (by omega)]
  | succ count ih =>
    rw [shiftDown, ih]
    by_cases here : i = j
    · rw [if_neg (by omega), if_pos (by omega), here, write_same]
    · rw [write_other _ _ _ _ here]
      by_cases later : j + 1 ≤ i ∧ i < j + 1 + count
      · rw [if_pos later, if_pos (by omega), write_other _ _ _ _ (by omega)]
      · rw [if_neg later, if_neg (by omega)]

theorem merge_at_get {bp : Nat} {spans : List Span} {a b : Span} (first : spans[bp]? = some a) (second : spans[bp + 1]? = some b)
    (i : Nat) : (mergeAt bp spans)[i]? =
      if i < bp then spans[i]? else if i = bp then some { off := a.off, len := b.off + b.len - a.off } else spans[i + 1]? := by
  induction bp generalizing spans i with
  | zero =>
    match spans with
    | [] => cases first
    | [span] => cases second
    | a' :: b' :: rest =>
      cases first
      cases second
      cases i <;> rfl
  | succ bp ih =>
    cases spans with
    | nil => cases first
    | cons span spans =>
      rw [List.getElem?_cons_succ] at first second
      cases i with
      | zero => rfl
      | succ i =>
        rw [mergeAt, List.getElem?_cons_succ, ih first second i]
        simp only [Nat.add_lt_add_iff_right, Nat.add_right_cancel_iff, List.getElem?_cons_succ]

theorem fuse_spans {symbols : Symbols} {bp : Nat} (pair : bp + 1 < symbols.ns) : spansOf (fuse symbols bp) = mergeAt bp (spansOf symbols) := by
  have first : (spansOf symbols)[bp]? = some { off := symbols.soff bp, len := symbols.slen bp } := by
    rw [spans_of_get, if_pos (by omega)]
  have second : (spansOf symbols)[bp + 1]? = some { off := symbols.soff (bp + 1), len := symbols.slen (bp + 1) } := by
    rw [spans_of_get, if_pos pair]
  refine List.ext_getElem? fun i => ?_
  rw [merge_at_get first second, spans_of_get, spans_of_get, spans_of_get]
  simp only [fuse, shift_down]
  by_cases early : i < bp
  · have still : ¬(bp + 1 ≤ i ∧ i < bp + 1 + (symbols.ns - 1 - (bp + 1))) := by omega
    have used : i < symbols.ns - 1 ∧ i < symbols.ns := by omega
    rw [if_neg still, if_neg still, if_pos used.1, if_pos early, if_pos used.2, write_other _ _ _ _ (Nat.ne_of_lt early)]
  · rw [if_neg early]
    by_cases here : i = bp
    · have still : ¬(bp + 1 ≤ i ∧ i < bp + 1 + (symbols.ns - 1 - (bp + 1))) := by omega
      have used : i < symbols.ns - 1 := by omega
      rw [if_neg still, if_neg still, if_pos used, if_pos here, here, write_same]
    · rw [if_neg here]
      by_cases used : i < symbols.ns - 1
      · have moved : bp + 1 ≤ i ∧ i < bp + 1 + (symbols.ns - 1 - (bp + 1)) := by omega
        have used' : i + 1 < symbols.ns := by omega
        rw [if_pos moved, if_pos moved, if_pos used, if_pos used', write_other _ _ _ _ (by omega)]
      · have unused : ¬i + 1 < symbols.ns := by omega
        rw [if_neg used, if_neg unused]

section Lowest

variable {merges : Hmap} {s : Bytes}

def spanRank (merges : Hmap) (s : Bytes) (a b : Span) : Option Nat :=
  hmGet merges (mergeKey (a.bytes s) (b.bytes s))

def textRank (merges : Hmap) (a b : Bytes) : Option Nat :=
  hmGet merges (mergeKey a b)

def Beats (pair other : Nat × Nat) : Prop :=
  pair.1 < other.1 ∨ pair.1 = other.1 ∧ pair.2 ≤ other.2

theorem beats_trans {a b c : Nat × Nat} (first : Beats a b) (second : Beats b c) : Beats a c := by
  unfold Beats at *
  omega

theorem beats_refl (a : Nat × Nat) : Beats a a :=
  .inr ⟨rfl, Nat.le_refl _⟩

theorem better_beats {best : Option (Nat × Nat)} {i : Nat} (looked : Option Nat) (early : ∀ old, best = some old → old.2 < i) :
    (better best i looked = none → best = none ∧ looked = none) ∧
      ∀ pair, better best i looked = some pair → pair.2 < i + 1 ∧ (∀ old, best = some old → Beats pair old) ∧
        ∀ rk, looked = some rk → Beats pair (rk, i) := by
  cases looked with
  | none =>
    refine ⟨fun none_ => ⟨none_, rfl⟩, fun pair found => ⟨Nat.lt_succ_of_lt (early pair found), ?_, fun _ same => by cases same⟩⟩
    intro old same
    cases found.symm.trans same
    exact beats_refl _
  | some rk =>
    cases best with
    | none =>
      refine ⟨(fun none_ => by cases none_), fun pair found => ?_⟩
      cases found
      refine ⟨Nat.lt_succ_self i, (fun _ same => by cases same), fun rk' same => ?_⟩
      cases same
      exact beats_refl _
    | some old =>
      have before := early old rfl
      simp only [better]
      split_ifs with lower
      · refine ⟨(fun none_ => by cases none_), fun pair found => ?_⟩
        cases found
        refine ⟨Nat.lt_succ_self i, fun old' same => ?_, fun rk' same => ?_⟩
        · cases same
          exact .inl lower
        · cases same
          exact beats_refl _
      · refine ⟨(fun none_ => by cases none_), fun pair found => ?_⟩
        cases found
        refine ⟨Nat.lt_succ_of_lt before, fun old' same => ?_, fun rk' same => ?_⟩
        · cases same
          exact beats_refl _
        · cases same
          simp only [Beats]
          omega

theorem unpaired_least {spans : List Span} (bare : Done (spanRank merges s) spans) (i : Nat) (best : Option (Nat × Nat)) :
    (best = none → best = none ∧ Done (spanRank merges s) spans) ∧
      ∀ pair, best = some pair → (∀ old, best = some old → Beats pair old) ∧
        ∀ k a b r, RankedAt (spanRank merges s) spans k a b r → Beats pair (r, i + k) := by
  refine ⟨fun none_ => ⟨none_, bare⟩, fun pair found => ⟨?_, fun k a b r there => absurd there (bare k a b r)⟩⟩
  intro old same
  cases found.symm.trans same
  exact beats_refl _

-- The pair that is found comes before every other, and none is found only where none has a rank.
theorem best_pair_least (spans : List Span) (i : Nat) (best : Option (Nat × Nat)) (early : ∀ old, best = some old → old.2 < i) :
    (bestPair merges s i best spans = none → best = none ∧ Done (spanRank merges s) spans) ∧
      ∀ pair, bestPair merges s i best spans = some pair → (∀ old, best = some old → Beats pair old) ∧
        ∀ k a b r, RankedAt (spanRank merges s) spans k a b r → Beats pair (r, i + k) := by
  induction spans generalizing i best with
  | nil =>
    have bare : Done (spanRank merges s) [] := fun _ _ _ _ there => nomatch there.first
    exact unpaired_least bare i best
  | cons a rest ih =>
    cases rest with
    | nil => exact unpaired_least (fun _ _ _ _ => ranked_single) i best
    | cons b rest =>
      obtain ⟨nothing, beats⟩ := better_beats (spanRank merges s a b) early
      obtain ⟨last, least⟩ := ih (i + 1) (better best i (spanRank merges s a b)) fun pair found => (beats pair found).1
      refine ⟨fun none_ => ?_, fun pair found => ?_⟩
      · obtain ⟨unranked, done⟩ := last none_
        obtain ⟨empty, unknown⟩ := nothing unranked
        refine ⟨empty, fun k x y r there => ?_⟩
        cases k with
        | zero => cases unknown.symm.trans (ranked_zero there)
        | succ k => exact done k x y r (ranked_cons.mp there)
      · obtain ⟨older, later⟩ := least pair found
        have behind : ∀ k x y r, RankedAt (spanRank merges s) (a :: b :: rest) (k + 1) x y r → Beats pair (r, i + (k + 1)) := by
          intro k x y r there
          rw [← Nat.add_assoc, Nat.add_right_comm]
          exact later k x y r (ranked_cons.mp there)
        cases merged : better best i (spanRank merges s a b) with
        | none =>
          obtain ⟨rfl, unknown⟩ := nothing merged
          refine ⟨nofun, fun k x y r there => ?_⟩
          cases k with
          | zero => cases unknown.symm.trans (ranked_zero there)
          | succ k => exact behind k x y r there
        | some middle =>
          obtain ⟨_, olds, here⟩ := beats middle merged
          have next := older middle merged
          refine ⟨fun old same => beats_trans next (olds old same), fun k x y r there => ?_⟩
          cases k with
          | zero => exact beats_trans next (here r (ranked_zero there))
          | succ k => exact behind k x y r there

theorem best_pair_lowest {spans : List Span} {r bp : Nat} (found : bestPair merges s 0 none spans = some (r, bp)) :
    ∃ a b, Lowest (spanRank merges s) spans bp a b r := by
  obtain ⟨_, least⟩ := (best_pair_least spans 0 none nofun).2 _ found
  rcases best_pair_picked spans 0 none found with old | ⟨k, a, b, at_, first, second, known⟩
  · cases old
  · rw [Nat.zero_add] at at_
    subst at_
    refine ⟨a, b, ⟨first, second, known⟩, fun j x y r' there => ?_⟩
    have beats := least j x y r' there
    rw [Nat.zero_add] at beats
    exact beats

end Lowest

inductive Reaches (merges : Hmap) (s : Bytes) : Nat → Symbols → Symbols → Prop
  | none {symbols : Symbols} : Reaches merges s 0 symbols symbols
  | more {n : Nat} {first next last : Symbols} (round : mergeRound merges s first = some (.merged next))
      (rest : Reaches merges s n next last) : Reaches merges s (n + 1) first last

section Rounds

variable {merges : Hmap} {s : Bytes} {symbols : Symbols} {texts : List Bytes}

theorem cut_texts (cut : Cut s symbols texts) : (spansOf symbols).map (Span.bytes s) = texts := by
  have bytes := laid_bytes [] texts
  rw [List.nil_append, cut.whole] at bytes
  rw [cut.spans]
  exact bytes

theorem round_scan (fits : ∀ key rk, hmGet merges key = some rk → rk < intMax) (cut : Cut s symbols texts) :
    ∃ found : Best, scanPairs merges s symbols (symbols.ns - 1) 0 { best := intMax, bp := none } = some found ∧
      found.pair = bestPair merges s 0 none (spansOf symbols) := by
  rw [cut.spans, cut.count]
  exact scan_pairs fits texts [] cut { best := intMax, bp := none } fun _ => rfl

theorem cut_joined {bp : Nat} {before after : List Bytes} {a b : Bytes} (cut : Cut s symbols (before ++ a :: b :: after))
    (spans : spansOf (fuse symbols bp) = laid 0 (before ++ (a ++ b) :: after)) :
    Cut s (fuse symbols bp) (before ++ (a ++ b) :: after) where
  spans := spans
  whole := by
    rw [← cut.whole]
    simp only [List.flatten_append, List.flatten_cons, List.append_assoc]
  some_ := by
    intro text inside
    rcases List.mem_append.mp inside with early | late
    · exact cut.some_ text (by simp [early])
    · rcases List.mem_cons.mp late with rfl | rest
      · exact List.append_ne_nil_of_left_ne_nil (cut.some_ a (by simp)) b
      · exact cut.some_ text (by simp [rest])

theorem round_cases (fits : ∀ key rk, hmGet merges key = some rk → rk < intMax) (cut : Cut s symbols texts) :
    (mergeRound merges s symbols = some .ended ∧ bestPair merges s 0 none (spansOf symbols) = none ∧
      Done (textRank merges) texts) ∨ ∃ r bp texts', mergeRound merges s symbols = some (.merged (fuse symbols bp)) ∧
      bestPair merges s 0 none (spansOf symbols) = some (r, bp) ∧
      spansOf (fuse symbols bp) = mergeAt bp (spansOf symbols) ∧ Cut s (fuse symbols bp) texts' ∧
      Step (textRank merges) (· ++ ·) texts texts' := by
  obtain ⟨found, runs, pair⟩ := round_scan fits cut
  cases picked : found.bp with
  | none =>
    have none_ : bestPair merges s 0 none (spansOf symbols) = none := by
      rw [← pair, Best.pair, picked]
      rfl
    have done := ((best_pair_least (spansOf symbols) 0 none nofun).1 none_).2
    have done' := Done.text_of (textRank merges) (Span.bytes s) done
    rw [cut_texts cut] at done'
    refine .inl ⟨?_, none_, done'⟩
    simp only [mergeRound, runs, Option.map_some, picked]
  | some bp =>
    have some_ : bestPair merges s 0 none (spansOf symbols) = some (found.best, bp) := by
      rw [← pair, Best.pair, picked]
      rfl
    obtain ⟨a, b, lowest⟩ := best_pair_lowest some_
    have used : bp + 1 < symbols.ns := by
      rw [← spans_of_length]
      exact (List.getElem?_eq_some_iff.mp lowest.pair.second).1
    have lowest' := Lowest.text_of (textRank merges) (Span.bytes s) lowest
    rw [cut_texts cut] at lowest'
    obtain ⟨before, after, place, same, joined⟩ := join_at lowest'.pair.first lowest'.pair.second
    have spans := fuse_spans used
    have spans' : spansOf (fuse symbols bp) = laid 0 (before ++ (a.bytes s ++ b.bytes s) :: after) := by
      rw [spans, cut.spans, merge_laid, joined]
    subst same place
    refine .inr ⟨found.best, before.length, _, ?_, some_, spans, cut_joined cut spans', .merge lowest'⟩
    simp only [mergeRound, runs, Option.map_some, picked]

theorem arrays_ended (limit : Nat) (ends : mergeRound merges s symbols = some .ended) :
    mergeArrays merges s limit symbols = some symbols := by
  rw [mergeArrays.eq_def]
  simp only [ends]

theorem arrays_merged (limit : Nat) {next : Symbols} (merged : mergeRound merges s symbols = some (.merged next)) :
    mergeArrays merges s (limit + 1) symbols = mergeArrays merges s limit next := by
  rw [mergeArrays.eq_def]
  simp only [merged]

theorem merge_arrays (fits : ∀ key rk, hmGet merges key = some rk → rk < intMax) (limit : Nat) (cut : Cut s symbols texts)
    (enough : texts.length ≤ limit + 1) : ∃ final n texts', mergeArrays merges s limit symbols = some final ∧
      spansOf final = mergeLoop merges s limit (spansOf symbols) ∧ Cut s final texts' ∧ Reaches merges s n symbols final ∧
      mergeRound merges s final = some .ended ∧ Segments (textRank merges) (· ++ ·) n texts texts' := by
  induction limit generalizing symbols texts with
  | zero =>
    rcases round_cases fits cut with ⟨ends, _, done⟩ | ⟨_, _, texts', _, _, _, cut', step⟩
    · exact ⟨symbols, 0, texts, arrays_ended 0 ends, rfl, cut, .none, ends, .none, done⟩
    · cases step with
      | merge lowest =>
        simp only [List.length_append, List.length_cons] at enough
        omega
  | succ limit ih =>
    rcases round_cases fits cut with ⟨ends, none_, done⟩ | ⟨r, bp, texts', merged, some_, spans, cut', step⟩
    · refine ⟨symbols, 0, texts, arrays_ended _ ends, ?_, cut, .none, ends, .none, done⟩
      rw [mergeLoop, none_]
    · have shorter := step.length
      obtain ⟨final, n, last, runs, loop, cut_, reaches, ends, merges_, done⟩ := ih cut' (by omega)
      refine ⟨final, n + 1, last, (arrays_merged limit merged).trans runs, ?_, cut_, .more merged reaches, ends,
        .more step merges_, done⟩
      rw [mergeLoop, some_, loop, spans]

theorem reaches_cut (fits : ∀ key rk, hmGet merges key = some rk → rk < intMax) {n : Nat} {last : Symbols}
    (reaches : Reaches merges s n symbols last) (cut : Cut s symbols texts) :
    ∃ texts', Cut s last texts' ∧ Merges (textRank merges) (· ++ ·) n texts texts' := by
  induction reaches generalizing texts with
  | none => exact ⟨texts, cut, .none⟩
  | more round rest ih =>
    rcases round_cases fits cut with ⟨ends, _, _⟩ | ⟨_, bp, texts', merged, _, _, cut', step⟩
    · cases ends.symm.trans round
    · cases merged.symm.trans round
      obtain ⟨last, cut_, merges_⟩ := ih cut'
      exact ⟨last, cut_, .more step merges_⟩

end Rounds

def rankOf (merges : List (Option (Bytes × Bytes))) (a b : Bytes) : Option Nat :=
  (List.range merges.length).reverse.find? fun i => merges[i]? == some (some (a, b))

theorem ranked_snoc (merges : List (Option (Bytes × Bytes))) (merge : Option (Bytes × Bytes)) :
    ranked (merges ++ [merge]) = ranked merges ++ (merge.map fun pair => (mergeKey pair.1 pair.2, merges.length)).toList := by
  rw [ranked, List.zipIdx_append, List.filterMap_append, ← ranked, List.zipIdx_singleton, Nat.zero_add]
  cases merge <;> rfl

theorem rank_of_snoc (merges : List (Option (Bytes × Bytes))) (merge : Option (Bytes × Bytes)) (a b : Bytes) :
    rankOf (merges ++ [merge]) a b = if merge = some (a, b) then some merges.length else rankOf merges a b := by
  have earlier : ∀ i ∈ (List.range merges.length).reverse,
      ((merges ++ [merge])[i]? == some (some (a, b))) = (merges[i]? == some (some (a, b))) := by
    intro i inside
    rw [List.getElem?_append_left (List.mem_range.mp (List.mem_reverse.mp inside))]
  rw [rankOf, List.length_append, List.length_singleton, List.range_succ, List.reverse_append, List.reverse_singleton,
    List.singleton_append, List.find?_cons, List.getElem?_concat_length]
  by_cases here : merge = some (a, b)
  · rw [here, if_pos rfl]
    simp
  · have other : (some merge == some (some (a, b))) = false := by simpa using here
    rw [other, if_neg here]
    exact List.find?_congr earlier

theorem latest_rank (merges : List (Option (Bytes × Bytes))) {a b : Bytes} (left : (0 : UInt8) ∉ a) (right : (0 : UInt8) ∉ b) :
    latest (ranked merges) (mergeKey a b) = rankOf merges a b := by
  induction merges using List.reverseRecOn with
  | nil => rfl
  | append_singleton merges merge ih =>
    rw [ranked_snoc, rank_of_snoc, latest, List.foldl_append, ← latest]
    cases merge with
    | none => exact ih
    | some pair =>
      obtain ⟨l, r⟩ := pair
      simp only [Option.map_some, Option.toList_some, List.foldl_cons, List.foldl_nil, updated]
      by_cases here : (l, r) = (a, b)
      · cases here
        rw [Function.update_self, if_pos rfl]
      · have other : mergeKey a b ≠ mergeKey l r := fun same => by
          obtain ⟨rfl, rfl⟩ := merge_key_inj left right same.symm
          exact here rfl
        rw [Function.update_of_ne other, ih, if_neg fun same => here (Option.some.inj same)]

-- Contiguous slices, none of them empty, that cover the string.
structure Slices (s : Bytes) (symbols : Symbols) : Prop where
  first : 0 < symbols.ns → symbols.soff 0 = 0
  contiguous : ∀ i, i + 1 < symbols.ns → symbols.soff (i + 1) = symbols.soff i + symbols.slen i
  last : ∀ i, i + 1 = symbols.ns → symbols.soff i + symbols.slen i = s.length
  some_ : ∀ i < symbols.ns, 0 < symbols.slen i
  none_ : symbols.ns = 0 → s = []

section Slices

variable {s : Bytes} {symbols : Symbols} {texts : List Bytes}

theorem cut_place (cut : Cut s symbols texts) {i : Nat} (used : i < symbols.ns) :
    symbols.soff i = (texts.take i).flatten.length ∧
      symbols.soff i + symbols.slen i = (texts.take (i + 1)).flatten.length ∧ 0 < symbols.slen i := by
  have inside : i < texts.length := by rwa [← cut.count]
  have split : texts = texts.take i ++ texts[i] :: texts.drop (i + 1) := by
    rw [List.getElem_cons_drop, List.take_append_drop]
  rw [split] at cut
  obtain ⟨off, len⟩ := cut.place
  rw [List.length_take_of_le (Nat.le_of_lt inside)] at off len
  have some_ : 0 < texts[i].length := List.length_pos_iff.mpr (cut.some_ texts[i] (by simp))
  refine ⟨off, ?_, by omega⟩
  rw [off, len, List.take_succ_eq_append_getElem inside, List.flatten_append, List.length_append]
  simp

theorem cut_slices (cut : Cut s symbols texts) : Slices s symbols where
  first := fun some_ => (cut_place cut some_).1
  contiguous := fun i used => by
    rw [(cut_place cut used).1, (cut_place cut (Nat.lt_of_succ_lt used)).2.1]
  last := fun i end_ => by
    have count := cut.count
    rw [(cut_place cut (by omega)).2.1, end_, count, List.take_length, cut.whole]
  some_ := fun i used => (cut_place cut used).2.2
  none_ := fun empty => by
    have nothing : texts = [] := List.length_eq_zero_iff.mp (cut.count.symm.trans empty)
    rw [← cut.whole, nothing]
    rfl

theorem cut_read (rest before : List Bytes) (cut : Cut s symbols (before ++ rest)) :
    (List.range' before.length rest.length).mapM (slice s symbols) = some rest := by
  induction rest generalizing before with
  | nil => rfl
  | cons text rest ih =>
    have tail := ih (before ++ [text]) (by rwa [List.append_assoc])
    rw [List.length_append, List.length_singleton] at tail
    rw [List.length_cons, List.range'_succ, List.mapM_cons, cut.slice, tail]
    rfl

theorem cut_segments (cut : Cut s symbols texts) : (List.range symbols.ns).mapM (slice s symbols) = some texts := by
  rw [List.range_eq_range', cut.count]
  exact cut_read texts [] cut

end Slices

section Piece

variable {tok : Tok} {merges : List (Option (Bytes × Bytes))} {p : Bytes}

theorem table_rank (table : tok.merges = filled merges.length (ranked merges)) (key : Bytes) :
    hmGet tok.merges key = latest (ranked merges) key := by
  rw [table]
  exact filled_get (ranked_length merges) key

theorem ranked_below {key : Bytes} {rank : Nat} (inside : (key, rank) ∈ ranked merges) : rank < merges.length := by
  obtain ⟨⟨merge, place⟩, among, same⟩ := List.mem_filterMap.mp inside
  obtain ⟨pair, _, entry⟩ := Option.map_eq_some_iff.mp same
  cases entry
  have below := (List.mem_zipIdx among).2.1
  rwa [Nat.zero_add] at below

theorem table_fits (table : tok.merges = filled merges.length (ranked merges)) (fits : merges.length ≤ intMax) (key : Bytes)
    (rk : Nat) (known : hmGet tok.merges key = some rk) : rk < intMax := by
  rw [table_rank table] at known
  exact Nat.lt_of_lt_of_le (ranked_below (latest_mem known)) fits

theorem applied_symbols (applies : tok.ignoreMerges = false ∨ hmGet tok.vocab (byteString p) = none) :
    bpeSymbols tok p = (mergeLoop tok.merges (byteString p) (spansFrom 0 (units (byteString p))).length
      (spansFrom 0 (units (byteString p)))).map (Span.bytes (byteString p)) := by
  unfold bpeSymbols
  simp only
  split
  · next id keep known =>
      rcases applies with merges_ | unknown
      · cases keep.symm.trans merges_
      · cases known.symm.trans unknown
  · rfl

theorem applied_arrays (applies : tok.ignoreMerges = false ∨ hmGet tok.vocab (byteString p) = none) {start final : Symbols}
    (filled : startSymbols (byteString p) = some start)
    (runs : mergeArrays tok.merges (byteString p) (start.ns - 1) start = some final) :
    bpeArrays tok p = (List.range final.ns).mapM (slice (byteString p) final) := by
  unfold bpeArrays
  simp only
  split
  · next id keep known =>
      rcases applies with merges_ | unknown
      · cases keep.symm.trans merges_
      · cases known.symm.trans unknown
  · rw [filled]
    simp only [Option.bind_eq_bind, Option.bind_some, runs]

theorem piece_run (fits : ∀ key rk, hmGet tok.merges key = some rk → rk < intMax)
    (applies : tok.ignoreMerges = false ∨ hmGet tok.vocab (byteString p) = none) :
    ∃ start final n texts, startSymbols (byteString p) = some start ∧ Cut (byteString p) start (p.map byte2str) ∧
      Reaches tok.merges (byteString p) n start final ∧ mergeRound tok.merges (byteString p) final = some .ended ∧
      Segments (textRank tok.merges) (· ++ ·) n (p.map byte2str) texts ∧ bpeArrays tok p = some texts ∧
      bpeSymbols tok p = texts := by
  obtain ⟨start, filled, cut⟩ := start_cut p
  have count := cut.count
  obtain ⟨final, n, texts, runs, _, cut', reaches, ends, segments⟩ := merge_arrays fits (start.ns - 1) cut (by omega)
  obtain ⟨wide, m, texts', _, loop, cut_, _, _, segments'⟩ := merge_arrays fits start.ns cut (by omega)
  obtain ⟨_, rfl⟩ := segments.unique segments'
  have spans : spansFrom 0 (units (byteString p)) = spansOf start := by
    rw [cut.spans, spans_laid, units_string, List.map_map]
    rfl
  refine ⟨start, final, n, texts, filled, cut, reaches, ends, segments, ?_, ?_⟩
  · rw [applied_arrays applies filled runs, cut_segments cut']
  · rw [applied_symbols applies, spans, spans_of_length, ← loop, cut_texts cut_]

theorem bpe_arrays_eq (fits : ∀ key rk, hmGet tok.merges key = some rk → rk < intMax) (p : Bytes) :
    bpeArrays tok p = some (bpeSymbols tok p) := by
  by_cases applies : tok.ignoreMerges = false ∨ hmGet tok.vocab (byteString p) = none
  · obtain ⟨_, _, _, texts, _, _, _, _, _, arrays, symbols⟩ := piece_run fits applies
    rw [arrays, symbols]
  · rw [not_or, Bool.not_eq_false] at applies
    obtain ⟨id, known⟩ := Option.ne_none_iff_exists'.mp applies.2
    simp only [bpeArrays, bpeSymbols, applies.1, known]

theorem merges_few {n : Nat} {texts last : List Bytes} (some_ : ∀ text ∈ texts, text ≠ [])
    (merges_ : Merges (textRank tok.merges) (· ++ ·) n texts last) (whole : last.flatten = texts.flatten) : n ≤ texts.length - 1 := by
  have count := merges_.length
  cases last with
  | nil =>
    cases texts with
    | nil => exact Nat.le_of_eq (by simpa using count)
    | cons text texts =>
      have nothing : text ++ texts.flatten = [] := whole.symm
      exact absurd (List.append_eq_nil_iff.mp nothing).1 (some_ text (by simp))
  | cons text last =>
    rw [List.length_cons] at count
    omega

-- What the segmentation of a piece is: the whole piece where the vocabulary has it and merges are ignored; else what the
-- reference procedure gives, each state on the way a cut of the byte-level string into slices.
structure Segmented (tok : Tok) (merges : List (Option (Bytes × Bytes))) (p : Bytes) : Prop where
  whole : tok.ignoreMerges = true → hmGet tok.vocab (byteString p) ≠ none → bpeArrays tok p = some [byteString p]
  merged : tok.ignoreMerges = false ∨ hmGet tok.vocab (byteString p) = none →
    ∃ start final n segments, startSymbols (byteString p) = some start ∧ start.ns = p.length ∧
      Reaches tok.merges (byteString p) n start final ∧ mergeRound tok.merges (byteString p) final = some .ended ∧
      bpeArrays tok p = some segments ∧ Segments (rankOf merges) (· ++ ·) n (p.map byte2str) segments ∧
      ∀ m symbols, Reaches tok.merges (byteString p) m start symbols →
        m ≤ start.ns - 1 ∧ Slices (byteString p) symbols

theorem merge_order (tok : Tok) (merges : List (Option (Bytes × Bytes))) (p : Bytes)
    (table : tok.merges = filled merges.length (ranked merges)) (fits : merges.length ≤ intMax) : Segmented tok merges p where
  whole := by
    intro keep known
    obtain ⟨id, known⟩ := Option.ne_none_iff_exists'.mp known
    simp only [bpeArrays, keep, known]
  merged := by
    intro applies
    have small := table_fits table fits
    obtain ⟨start, final, n, texts, filled_, cut, reaches, ends, segments, arrays, _⟩ := piece_run small applies
    refine ⟨start, final, n, texts, filled_, by rw [cut.count, List.length_map], reaches, ends, arrays, ?_, ?_⟩
    · refine segments.congr (fun text => (0 : UInt8) ∉ text) ?_ ?_ ?_
      · intro a b left right
        rw [textRank, table_rank table, latest_rank merges left right]
      · intro a b left right inside
        exact (List.mem_append.mp inside).elim left right
      · intro text inside
        obtain ⟨b, _, rfl⟩ := List.mem_map.mp inside
        exact (reads_back b).text
    · intro m symbols reached
      obtain ⟨texts', cut', merges_⟩ := reaches_cut small reached cut
      refine ⟨?_, cut_slices cut'⟩
      rw [cut.count]
      exact merges_few cut.some_ merges_ (cut'.whole.trans cut.whole.symm)

end Piece

def abTok (merges : List (Option (Bytes × Bytes))) (ignoreMerges : Bool) : Tok :=
  { vocab := filled 1 [(utf8 "ab", 0)], merges := filled merges.length (ranked merges), id2str := fun _ => none,
    idAdded := fun _ => false, nIds := 1, sp := [], ignoreMerges := ignoreMerges }

theorem pair_arrays_eq : bpeArrays (abTok [some (utf8 "a", utf8 "b")] false) (utf8 "aba") =
    some (bpeSymbols (abTok [some (utf8 "a", utf8 "b")] false) (utf8 "aba")) :=
  bpe_arrays_eq (table_fits rfl (show [some (utf8 "a", utf8 "b")].length ≤ intMax by decide)) _

theorem merge_order_pair : Segmented (abTok [some (utf8 "a", utf8 "b")] false) [some (utf8 "a", utf8 "b")] (utf8 "aba") :=
  merge_order _ _ _ rfl (by decide)

-- With ignore_merges a piece of the vocabulary stays whole, where no pair is in the table.
theorem ignored_merges_whole : ¬∀ (tok : Tok) (merges : List (Option (Bytes × Bytes))) (p : Bytes),
    tok.merges = filled merges.length (ranked merges) → merges.length ≤ intMax →
      ∃ n segments, bpeArrays tok p = some segments ∧ Segments (rankOf merges) (· ++ ·) n (p.map byte2str) segments := by
  intro claimed
  obtain ⟨n, segments, arrays, reference⟩ := claimed (abTok [] true) [] (utf8 "ab") rfl (Nat.zero_le _)
  have whole : bpeArrays (abTok [] true) (utf8 "ab") = some [utf8 "ab"] := by decide +kernel
  have none_ : Segments (rankOf []) (· ++ ·) 0 ((utf8 "ab").map byte2str) ((utf8 "ab").map byte2str) :=
    ⟨.none, fun _ _ _ _ pair => nomatch pair.known⟩
  obtain ⟨_, same⟩ := reference.unique none_
  cases whole.symm.trans arrays
  have count : ([utf8 "ab"] : List Bytes).length = ((utf8 "ab").map byte2str).length := congrArg List.length same
  revert count
  decide +kernel

end SamosaChat.Tokenizer
