import SamosaChat.Tokenizer.Encode

set_option autoImplicit false

namespace SamosaChat.Tokenizer

open Utf8

theorem next_plain {c : UInt8} {s rest : Bytes} (small : c < 0x80) : u8Next c s = u8Next c rest := by
  unfold u8Next
  rw [if_pos small, if_pos small]

theorem next_two {c d : UInt8} {rest : Bytes} (lead : c >>> 5 = 0x6) : u8Next c (d :: rest) = u8Next c [d] := by
  unfold u8Next
  rw [beq_iff_eq.mpr lead]

structure ReadsBack (b : UInt8) : Prop where
  reads : (∃ c, byte2str b = [c] ∧ u8Next c [] = (byte2cp b, 1) ∧ c < 0x80) ∨
    ∃ c d, byte2str b = [c, d] ∧ u8Next c [d] = (byte2cp b, 2) ∧ c >>> 5 = 0x6
  text : (0 : UInt8) ∉ byte2str b
  back : byte2cp b < 1024 ∧ cp2byte (byte2cp b) = some b

theorem rank_less {a b : Nat} (less : a < b) (other : isDir a = false) :
    ((List.range a).filter fun c => !isDir c).length < ((List.range b).filter fun c => !isDir c).length := by
  have next : (List.range (a + 1)).Sublist (List.range b) := List.range_sublist.mpr less
  have longer := (next.filter fun c => !isDir c).length_le
  rw [List.range_succ, List.filter_append, List.length_append, List.filter_singleton, other] at longer
  exact longer

theorem byte2cp_injective : Function.Injective byte2cp := by
  intro a b same
  have left := a.toNat_lt
  have right := b.toNat_lt
  unfold byte2cp at same
  cases A : isDir a.toNat <;> cases B : isDir b.toNat <;> simp only [A, B, if_true, Bool.false_eq_true, if_false] at same
  · rcases Nat.lt_trichotomy a.toNat b.toNat with less | equal | less
    · have := rank_less less A
      omega
    · exact UInt8.toNat_inj.mp equal
    · have := rank_less less B
      omega
  · omega
  · omega
  · exact UInt8.toNat_inj.mp same

theorem cp_back (b : UInt8) : cp2byte (byte2cp b) = some b := by
  have among : b ∈ everyByte := List.mem_map.mpr ⟨b.toNat, List.mem_range.mpr b.toNat_lt, UInt8.ofNat_toNat⟩
  unfold cp2byte
  cases found : everyByte.find? fun c => byte2cp c == byte2cp b with
  | none => exact absurd (beq_self_eq_true _) (List.find?_eq_none.mp found b among)
  | some c =>
    have same := List.find?_some found
    rw [byte2cp_injective (eq_of_beq same)]

def readsBack (b : UInt8) : Bool :=
  (match byte2str b with
    | [c] => decide (u8Next c [] = (byte2cp b, 1)) && decide (c < 0x80)
    | [c, d] => decide (u8Next c [d] = (byte2cp b, 2)) && decide (c >>> 5 = 0x6)
    | _ => false) && !(byte2str b).contains 0 && (decide (byte2cp b < 1024) && decide (cp2byte (byte2cp b) = some b))

theorem reads_back (b : UInt8) : ReadsBack b := by
  have all : readsBack b = true := by
    rw [readsBack, cp_back]
    revert b
    exact every_byte (by decide +kernel)
  unfold readsBack at all
  rw [Bool.and_eq_true, Bool.and_eq_true] at all
  obtain ⟨⟨shape, text⟩, back⟩ := all
  refine ⟨?_, by simpa using text, by simpa using back⟩
  split at shape
  · next c same => exact .inl ⟨c, same, by simpa using shape⟩
  · next c d same => exact .inr ⟨c, d, same, by simpa using shape⟩
  · cases shape

theorem byte_string_nil : byteString [] = [] := rfl

theorem byte_string_cons (b : UInt8) (p : Bytes) : byteString (b :: p) = byte2str b ++ byteString p := rfl

theorem byte_string_append (p q : Bytes) : byteString (p ++ q) = byteString p ++ byteString q :=
  List.flatMap_append

theorem byte_string_join (qs : List Bytes) : (qs.map byteString).flatten = byteString qs.flatten := by
  induction qs with
  | nil => rfl
  | cons q qs ih => rw [List.map_cons, List.flatten_cons, List.flatten_cons, ih, byte_string_append]

theorem byte_string_text (p : Bytes) : (0 : UInt8) ∉ byteString p := by
  intro inside
  obtain ⟨b, _, here⟩ := List.mem_flatMap.mp inside
  exact (reads_back b).text here

theorem byte_string_length (p : Bytes) : p.length ≤ (byteString p).length := by
  induction p with
  | nil => exact Nat.le_refl _
  | cons b p ih =>
    rw [byte_string_cons, List.length_append, List.length_cons]
    rcases (reads_back b).reads with ⟨c, same, _⟩ | ⟨c, d, same, _⟩ <;> rw [same] <;> simp <;> omega

def unitOf (b : UInt8) : CodePoint :=
  { cp := byte2cp b, bytes := byte2str b }

theorem scan_byte (rounds : Nat) (b : UInt8) (rest : Bytes) :
    scanUnits (rounds + 1) (byte2str b ++ rest) = unitOf b :: scanUnits rounds rest := by
  rcases (reads_back b).reads with ⟨c, same, next, small⟩ | ⟨c, d, same, next, lead⟩
  · rw [same, List.singleton_append, scanUnits, @next_plain _ _ [] small, next, unitOf, same]
    rfl
  · have next' : u8Next c (d :: rest) = (byte2cp b, 2) := (next_two lead).trans next
    rw [same, List.cons_append, List.singleton_append, scanUnits, next', unitOf, same]
    rfl

theorem scan_string (p : Bytes) (rounds : Nat) (enough : p.length ≤ rounds) : scanUnits rounds (byteString p) = p.map unitOf := by
  induction p generalizing rounds with
  | nil => cases rounds <;> rfl
  | cons b p ih =>
    cases rounds with
    | zero => cases enough
    | succ rounds => rw [byte_string_cons, scan_byte, ih rounds (Nat.le_of_succ_le_succ enough), List.map_cons]

theorem units_string (p : Bytes) : units (byteString p) = p.map unitOf :=
  scan_string p _ (byte_string_length p)

theorem string_bytes (p : Bytes) : (units (byteString p)).filterMap unitByte = p := by
  rw [units_string]
  induction p with
  | nil => rfl
  | cons b p ih =>
    obtain ⟨small, byte⟩ := (reads_back b).back
    have back : unitByte (unitOf b) = some b := (if_pos small).trans byte
    rw [List.map_cons, List.filterMap_cons, back, ih]

def laid (off : Nat) : List Bytes → List Span
  | [] => []
  | text :: texts => { off := off, len := text.length } :: laid (off + text.length) texts

theorem spans_laid (off : Nat) (us : List CodePoint) : spansFrom off us = laid off (us.map CodePoint.bytes) := by
  induction us generalizing off with
  | nil => rfl
  | cons next rest ih => rw [spansFrom, ih, List.map_cons, laid]

theorem laid_bytes (before : Bytes) (texts : List Bytes) :
    (laid before.length texts).map (Span.bytes (before ++ texts.flatten)) = texts := by
  induction texts generalizing before with
  | nil => rfl
  | cons text texts ih =>
    have head : Span.bytes (before ++ (text :: texts).flatten) { off := before.length, len := text.length } = text := by
      rw [Span.bytes, List.drop_left, List.flatten_cons, List.take_left]
    have tail := ih (before ++ text)
    rw [List.length_append, List.append_assoc] at tail
    rw [laid, List.map_cons, head, List.flatten_cons, tail]

theorem laid_length (off : Nat) (texts : List Bytes) : (laid off texts).length = texts.length := by
  induction texts generalizing off with
  | nil => rfl
  | cons text texts ih => rw [laid, List.length_cons, ih, List.length_cons]

def joinAt : Nat → List Bytes → List Bytes
  | 0, a :: b :: rest => (a ++ b) :: rest
  | bp + 1, a :: rest => a :: joinAt bp rest
  | _, texts => texts

theorem merge_laid (bp off : Nat) (texts : List Bytes) : mergeAt bp (laid off texts) = laid off (joinAt bp texts) := by
  induction bp generalizing off texts with
  | zero =>
    match texts with
    | [] => rfl
    | [text] => rfl
    | a :: b :: rest =>
      have width : off + a.length + b.length - off = (a ++ b).length := by
        rw [List.length_append]
        omega
      simp only [laid, mergeAt, joinAt]
      rw [width, Nat.add_assoc, ← List.length_append]
  | succ bp ih =>
    cases texts with
    | nil => rfl
    | cons a rest => simp only [laid, mergeAt, joinAt, ih]

theorem join_at {k : Nat} {texts : List Bytes} {a b : Bytes} (first : texts[k]? = some a) (second : texts[k + 1]? = some b) :
    ∃ before after, before.length = k ∧ texts = before ++ a :: b :: after ∧ joinAt k texts = before ++ (a ++ b) :: after := by
  induction k generalizing texts with
  | zero =>
    match texts with
    | [] => cases first
    | [text] => cases second
    | a' :: b' :: rest =>
      cases first
      cases second
      exact ⟨[], rest, rfl, rfl, rfl⟩
  | succ k ih =>
    cases texts with
    | nil => cases first
    | cons text texts =>
      rw [List.getElem?_cons_succ] at first second
      obtain ⟨before, after, place, same, joined⟩ := ih first second
      exact ⟨text :: before, after, by rw [List.length_cons, place], by rw [same]; rfl, by rw [joinAt, joined]; rfl⟩

theorem join_strings (k : Nat) (qs : List Bytes) : joinAt k (qs.map byteString) = (joinAt k qs).map byteString := by
  induction k generalizing qs with
  | zero =>
    match qs with
    | [] => rfl
    | [q] => rfl
    | a :: b :: rest => simp only [List.map_cons, joinAt, byte_string_append]
  | succ k ih =>
    cases qs with
    | nil => rfl
    | cons q qs => simp only [List.map_cons, joinAt, ih]

def Picked (merges : Hmap) (s : Bytes) (spans : List Span) (i rank bp : Nat) : Prop :=
  ∃ k a b, bp = i + k ∧ spans[k]? = some a ∧ spans[k + 1]? = some b ∧
    hmGet merges (mergeKey (a.bytes s) (b.bytes s)) = some rank

theorem better_cases {best : Option (Nat × Nat)} {i rank bp : Nat} {looked : Option Nat}
    (found : better best i looked = some (rank, bp)) : best = some (rank, bp) ∨ looked = some rank ∧ bp = i := by
  cases looked with
  | none => exact .inl found
  | some rk =>
    cases best with
    | none =>
      cases found
      exact .inr ⟨rfl, rfl⟩
    | some old =>
      simp only [better] at found
      split_ifs at found
      · cases found
        exact .inr ⟨rfl, rfl⟩
      · exact .inl found

theorem best_pair_picked {merges : Hmap} {s : Bytes} (spans : List Span) (i : Nat) (best : Option (Nat × Nat)) {rank bp : Nat}
    (found : bestPair merges s i best spans = some (rank, bp)) : best = some (rank, bp) ∨ Picked merges s spans i rank bp := by
  induction spans generalizing i best with
  | nil => exact .inl found
  | cons a rest ih =>
    cases rest with
    | nil => exact .inl found
    | cons b rest =>
      rw [bestPair] at found
      rcases ih (i + 1) _ found with here | ⟨k, x, y, at_, first, second, known⟩
      · rcases better_cases here with old | ⟨known, rfl⟩
        · exact .inl old
        · exact .inr ⟨0, a, b, rfl, rfl, rfl, known⟩
      · exact .inr ⟨k + 1, x, y, by omega, first, second, known⟩

theorem laid_piece {qs : List Bytes} {k : Nat} {span : Span} (there : (laid 0 (qs.map byteString))[k]? = some span) :
    ∃ q, qs[k]? = some q ∧ span.bytes (byteString qs.flatten) = byteString q := by
  have bytes := laid_bytes [] (qs.map byteString)
  rw [List.nil_append, byte_string_join] at bytes
  have same := congrArg (·[k]?) bytes
  simp only [List.length_nil, List.getElem?_map, there] at same
  obtain ⟨q, here, equal⟩ := Option.map_eq_some_iff.mp same.symm
  exact ⟨q, here, equal.symm⟩

theorem merge_loop_pieces {merges : Hmap} {ok : Bytes → Prop}
    (kept : ∀ a b rank, ok a → ok b → hmGet merges (mergeKey (byteString a) (byteString b)) = some rank → ok (a ++ b))
    (p : Bytes) (rounds : Nat) (qs : List Bytes) (all : ∀ q ∈ qs, ok q) (whole : qs.flatten = p) :
    ∃ qs' : List Bytes, mergeLoop merges (byteString p) rounds (laid 0 (qs.map byteString)) = laid 0 (qs'.map byteString) ∧
      qs'.flatten = p ∧ ∀ q ∈ qs', ok q := by
  induction rounds generalizing qs with
  | zero => exact ⟨qs, rfl, whole, all⟩
  | succ rounds ih =>
    rw [mergeLoop]
    cases found : bestPair merges (byteString p) 0 none (laid 0 (qs.map byteString)) with
    | none => exact ⟨qs, rfl, whole, all⟩
    | some pair =>
      rcases best_pair_picked _ 0 none found with old | ⟨k, x, y, at_, first, second, known⟩
      · cases old
      · obtain ⟨a, first', left⟩ := laid_piece first
        obtain ⟨b, second', right⟩ := laid_piece second
        rw [whole] at left right
        rw [left, right] at known
        obtain ⟨before, after, _, same, joined⟩ := join_at first' second'
        simp only [at_, Nat.zero_add]
        rw [merge_laid, join_strings]
        refine ih (joinAt k qs) ?_ ?_
        · rw [joined]
          rw [same] at all
          intro q inside
          rcases List.mem_append.mp inside with early | late
          · exact all q (by simp [early])
          · rcases List.mem_cons.mp late with rfl | rest
            · exact kept a b _ (all a (by simp)) (all b (by simp)) known
            · exact all q (by simp [rest])
        · rw [← whole, joined, same]
          simp

theorem initial_spans (p : Bytes) : spansFrom 0 (units (byteString p)) = laid 0 ((p.map fun b => [b]).map byteString) := by
  rw [spans_laid, units_string, List.map_map, List.map_map]
  congr 1
  refine List.map_congr_left fun b _ => ?_
  exact (List.append_nil _).symm

theorem symbols_pieces {tok : Tok} {ok : Bytes → Prop} (p : Bytes) (one : ∀ b, ok [b])
    (kept : ∀ a b rank, ok a → ok b → hmGet tok.merges (mergeKey (byteString a) (byteString b)) = some rank → ok (a ++ b))
    (whole : ∀ id, hmGet tok.vocab (byteString p) = some id → ok p) :
    ∃ qs : List Bytes, bpeSymbols tok p = qs.map byteString ∧ qs.flatten = p ∧ ∀ q ∈ qs, ok q := by
  have loop : ∃ qs : List Bytes, (mergeLoop tok.merges (byteString p) (spansFrom 0 (units (byteString p))).length
      (spansFrom 0 (units (byteString p)))).map (Span.bytes (byteString p)) = qs.map byteString ∧ qs.flatten = p ∧
        ∀ q ∈ qs, ok q := by
    rw [initial_spans]
    obtain ⟨qs, same, join, all⟩ := merge_loop_pieces kept p (laid 0 ((p.map fun b => [b]).map byteString)).length
      (p.map fun b => [b]) (by simpa using fun b _ => one b) (by rw [← List.flatMap_def]; simp)
    refine ⟨qs, ?_, join, all⟩
    have bytes := laid_bytes [] (qs.map byteString)
    rw [List.nil_append, byte_string_join, join] at bytes
    rw [same]
    exact bytes
  unfold bpeSymbols
  simp only
  split
  · next id _ known => exact ⟨[p], rfl, List.append_nil _, by simpa using whole id known⟩
  · exact loop

theorem bpe_symbols_join (tok : Tok) (p : Bytes) : (bpeSymbols tok p).flatten = byteString p := by
  obtain ⟨qs, same, join, _⟩ := @symbols_pieces tok (fun _ => True) p (fun _ => trivial)
    (fun _ _ _ _ _ _ => trivial) fun _ _ => trivial
  rw [same, byte_string_join, join]

end SamosaChat.Tokenizer
