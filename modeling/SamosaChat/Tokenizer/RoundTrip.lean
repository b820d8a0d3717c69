import SamosaChat.Tokenizer.Cuts
import SamosaChat.Tokenizer.Symbols
import SamosaChat.Tokenizer.Tables

set_option autoImplicit false

namespace SamosaChat.Tokenizer

open Utf8 Text Json Probing

structure Complete (source : Source) : Prop where
  symbols : ∀ b, byte2str b ∈ source.vocab.map Prod.fst
  results : ∀ left right, some (left, right) ∈ source.merges → left ++ right ∈ source.vocab.map Prod.fst
  distinct : source.ids.Nodup

def LargeEnough (classes : Classes) (tok : Tok) (text : Bytes) (allowAddedTokens : Bool) (max : Nat) : Prop :=
  ∀ more ≥ max, tokEncodePolicy classes tok text more allowAddedTokens = tokEncodePolicy classes tok text max allowAddedTokens

theorem merge_key_inj {l r l' r' : Bytes} (left : (0 : UInt8) ∉ l) (right : (0 : UInt8) ∉ r)
    (same : mergeKey l' r' = mergeKey l r) : l' = l ∧ r' = r := by
  rcases List.append_eq_append_iff.mp same with ⟨a, first, second⟩ | ⟨a, first, second⟩
  · cases a with
    | nil =>
      rw [List.append_nil] at first
      exact ⟨first.symm, (List.cons.inj second).2⟩
    | cons c a =>
      obtain ⟨rfl, _⟩ := List.cons.inj second
      exact absurd (by rw [first]; simp) left
  · cases a with
    | nil =>
      rw [List.append_nil] at first
      exact ⟨first, (List.cons.inj second).2.symm⟩
    | cons c a =>
      obtain ⟨rfl, tail⟩ := List.cons.inj second
      exact absurd (by rw [tail]; simp) right

theorem ranked_mem {merges : List (Option (Bytes × Bytes))} {key : Bytes} {rank : Nat} (inside : (key, rank) ∈ ranked merges) :
    ∃ left right, some (left, right) ∈ merges ∧ key = mergeKey left right := by
  obtain ⟨⟨merge, i⟩, among, made⟩ := List.mem_filterMap.mp inside
  obtain ⟨⟨left, right⟩, known, pair⟩ := Option.map_eq_some_iff.mp made
  obtain ⟨rfl, _⟩ := Prod.mk.inj pair
  obtain ⟨_, _, there⟩ := List.mem_zipIdx among
  refine ⟨left, right, ?_, rfl⟩
  rw [← show merge = some (left, right) from known, there]
  exact List.getElem_mem _

theorem ranked_length (merges : List (Option (Bytes × Bytes))) : (ranked merges).length ≤ merges.length := by
  refine Nat.le_trans (List.length_filterMap_le _ _) (Nat.le_of_eq ?_)
  exact List.length_zipIdx

def pieceIds (tok : Tok) (p : Bytes) : List Nat :=
  (bpeSymbols tok p).filterMap (hmGet tok.vocab)

def partIds (classes : Classes) (tok : Tok) : Part → List Nat
  | .chunk text => (pretokPieces classes text).flatMap (pieceIds tok)
  | .added special => [special.id]

def textIds (classes : Classes) (tok : Tok) (text : Bytes) (allowAddedTokens : Bool) : List Nat :=
  (parts tok text allowAddedTokens).flatMap (partIds classes tok)

theorem emits_eq {α : Type} {max : Nat} (ids out : List α) (room : out.length ≤ max) : ids.foldl (emit max) out = (out ++ ids).take max := by
  induction ids generalizing out with
  | nil => rw [List.append_nil, List.take_of_length_le room, List.foldl_nil]
  | cons id ids ih =>
    rw [List.foldl_cons, emit]
    split_ifs with free
    · rw [ih _ (by rw [List.length_append]; exact free), List.append_assoc]
      rfl
    · have full : out.length = max := by omega
      rw [ih _ room, ← full, List.take_left, List.take_left]

theorem part_emits (classes : Classes) (tok : Tok) (max : Nat) (out : List Nat) (part : Part) :
    encodePart classes tok max out part = (partIds classes tok part).foldl (emit max) out := by
  cases part with
  | chunk chunk => exact (List.foldl_flatMap).symm
  | added special => rfl

theorem encode_eq (classes : Classes) (tok : Tok) (text : Bytes) (max : Nat) (allow : Bool) :
    tokEncodePolicy classes tok text max allow = (textIds classes tok text allow).take max := by
  have emits : tokEncodePolicy classes tok text max allow = (parts tok text allow).foldl (encodePart classes tok max) [] := by
    cases allow <;> rfl
  have step : encodePart classes tok max = fun out part => (partIds classes tok part).foldl (emit max) out := by
    funext out part
    exact part_emits classes tok max out part
  rw [emits, step, ← List.foldl_flatMap, emits_eq _ _ (Nat.zero_le _)]
  rfl

theorem decode_eq (tok : Tok) (ids : List Nat) (max : Nat) : tokDecode tok ids max = (ids.flatMap (idBytes tok)).take max := by
  rw [tokDecode, ← List.foldl_flatMap, emits_eq _ _ (Nat.zero_le _)]
  rfl

section Loaded

variable {qsort : Qsort} {root : Jval} {tok : Tok} {source : Source}

theorem loaded_vocab (loaded : tokLoad qsort root = some tok) (read : readSource root = some source) (key : Bytes) :
    hmGet tok.vocab key = latest source.vocab key := by
  rw [tokLoad, read] at loaded
  cases loaded
  exact filled_get (Nat.le_refl _) key

theorem loaded_table (loaded : tokLoad qsort root = some tok) (read : readSource root = some source) :
    tok.merges = filled source.merges.length (ranked source.merges) := by
  rw [tokLoad, read] at loaded
  cases loaded
  rfl

theorem loaded_merges (loaded : tokLoad qsort root = some tok) (read : readSource root = some source) (key : Bytes) :
    hmGet tok.merges key = latest (ranked source.merges) key := by
  rw [loaded_table loaded read]
  exact filled_get (ranked_length _) key

theorem set_string_eq (entries : List (Bytes × Nat)) (id2str : Nat → Option Bytes) :
    entries.foldl setString id2str = (entries.map Prod.swap).foldl updated id2str := by
  rw [List.foldl_map]
  rfl

theorem loaded_strings (loaded : tokLoad qsort root = some tok) (read : readSource root = some source) :
    tok.id2str = latest ((source.vocab ++ source.added.map fun special => (special.str, special.id)).map Prod.swap) := by
  rw [tokLoad, read] at loaded
  cases loaded
  change List.foldl setString (List.foldl setString (fun _ => none) source.vocab) _ = _
  rw [← List.foldl_append, set_string_eq]
  rfl

theorem foldl_max_ge (ids : List Nat) (start : Nat) : start ≤ ids.foldl Nat.max start ∧ ∀ id ∈ ids, id ≤ ids.foldl Nat.max start := by
  induction ids generalizing start with
  | nil => exact ⟨Nat.le_refl _, by simp⟩
  | cons id ids ih =>
    obtain ⟨above, all⟩ := ih (Nat.max start id)
    refine ⟨Nat.le_trans (Nat.le_max_left _ _) above, fun other inside => ?_⟩
    rcases List.mem_cons.mp inside with rfl | later
    · exact Nat.le_trans (Nat.le_max_right _ _) above
    · exact all other later

theorem loaded_ids (loaded : tokLoad qsort root = some tok) (read : readSource root = some source) {id : Nat}
    (inside : id ∈ source.ids) : ¬tok.nIds ≤ id := by
  rw [tokLoad, read] at loaded
  cases loaded
  exact Nat.not_le.mpr (Nat.lt_succ_of_le ((foldl_max_ge source.ids 0).2 id inside))

theorem loaded_added (loaded : tokLoad qsort root = some tok) (read : readSource root = some source) (id : Nat) :
    tok.idAdded id = true ↔ ∃ special ∈ source.added, special.id = id := by
  rw [tokLoad, read] at loaded
  cases loaded
  simp

theorem loaded_special (loaded : tokLoad qsort root = some tok) (read : readSource root = some source) {special : Special}
    (inside : special ∈ tok.sp) : special ∈ source.added := by
  rw [tokLoad, read] at loaded
  cases loaded
  exact (qsort.perm _).mem_iff.mp inside

theorem swapped_ids (source : Source) :
    ((source.vocab ++ source.added.map fun special => (special.str, special.id)).map Prod.swap).map Prod.fst = source.ids := by
  rw [Source.ids, List.map_append, List.map_append, List.map_map, List.map_map, List.map_map]
  rfl

-- What the ids of the vocabulary and of the added tokens are decoded to.

theorem vocab_id_bytes (loaded : tokLoad qsort root = some tok) (read : readSource root = some source)
    (complete : Complete source) {q : Bytes} {id : Nat} (known : hmGet tok.vocab (byteString q) = some id) :
    idBytes tok id = q := by
  rw [loaded_vocab loaded read] at known
  have inside := latest_mem known
  have listed : id ∈ source.vocab.map Prod.snd := List.mem_map.mpr ⟨_, inside, rfl⟩
  have name : tok.id2str id = some (byteString q) := by
    rw [loaded_strings loaded read]
    refine latest_distinct (by rw [swapped_ids]; exact complete.distinct) ?_
    exact List.mem_map.mpr ⟨(byteString q, id), List.mem_append_left _ inside, rfl⟩
  have plain : tok.idAdded id = false := by
    rw [Bool.eq_false_iff]
    intro added
    obtain ⟨special, among, same⟩ := (loaded_added loaded read id).mp added
    refine (List.nodup_append.mp complete.distinct).2.2 id listed special.id (List.mem_map.mpr ⟨special, among, rfl⟩) same.symm
  unfold idBytes
  rw [if_neg (loaded_ids loaded read (List.mem_append_left _ listed)), name]
  simp only [plain, Bool.false_eq_true, if_false]
  exact string_bytes q

theorem added_id_bytes (loaded : tokLoad qsort root = some tok) (read : readSource root = some source)
    (complete : Complete source) {special : Special} (among : special ∈ source.added) : idBytes tok special.id = special.str := by
  have listed : special.id ∈ source.ids := List.mem_append_right _ (List.mem_map.mpr ⟨special, among, rfl⟩)
  have name : tok.id2str special.id = some special.str := by
    rw [loaded_strings loaded read]
    refine latest_distinct (by rw [swapped_ids]; exact complete.distinct) ?_
    exact List.mem_map.mpr ⟨_, List.mem_append_right _ (List.mem_map.mpr ⟨special, among, rfl⟩), rfl⟩
  unfold idBytes
  rw [if_neg (loaded_ids loaded read listed), name]
  exact if_pos ((loaded_added loaded read special.id).mpr ⟨special, among, rfl⟩)

def Known (tok : Tok) (q : Bytes) : Prop :=
  q ≠ [] ∧ ∃ id, hmGet tok.vocab (byteString q) = some id

theorem known_of_mem (loaded : tokLoad qsort root = some tok) (read : readSource root = some source) {q : Bytes} (some_ : q ≠ [])
    (inside : byteString q ∈ source.vocab.map Prod.fst) : Known tok q := by
  obtain ⟨⟨key, id⟩, among, rfl⟩ := List.mem_map.mp inside
  refine ⟨some_, ?_⟩
  rw [loaded_vocab loaded read]
  exact latest_some among

section Loaded

variable (loaded : tokLoad qsort root = some tok) (read : readSource root = some source) (complete : Complete source)
include loaded read complete

theorem symbols_known {p : Bytes} (some_ : p ≠ []) :
    ∃ qs : List Bytes, bpeSymbols tok p = qs.map byteString ∧ qs.flatten = p ∧ ∀ q ∈ qs, Known tok q := by
  refine symbols_pieces p (fun b => ?_) (fun a b rank left right merged => ?_) fun id known => ⟨some_, id, known⟩
  · refine known_of_mem loaded read (by simp) ?_
    rw [byte_string_cons, byte_string_nil, List.append_nil]
    exact complete.symbols b
  · rw [loaded_merges loaded read] at merged
    obtain ⟨l, r, among, same⟩ := ranked_mem (latest_mem merged)
    obtain ⟨rfl, rfl⟩ := merge_key_inj (byte_string_text a) (byte_string_text b) same.symm
    refine known_of_mem loaded read (by simp [left.1]) ?_
    rw [byte_string_append]
    exact complete.results _ _ among

theorem piece_ids {p : Bytes} (some_ : p ≠ []) :
    (pieceIds tok p).flatMap (idBytes tok) = p ∧ (pieceIds tok p).length ≤ p.length := by
  obtain ⟨qs, symbols, whole, all⟩ := symbols_known loaded read complete some_
  have ids : ∀ qs : List Bytes, (∀ q ∈ qs, Known tok q) →
      ((qs.map byteString).filterMap (hmGet tok.vocab)).flatMap (idBytes tok) = qs.flatten ∧
        ((qs.map byteString).filterMap (hmGet tok.vocab)).length ≤ qs.flatten.length := by
    intro qs
    induction qs with
    | nil => exact fun _ => ⟨rfl, Nat.le_refl _⟩
    | cons q qs ih =>
      intro all
      obtain ⟨full, id, known⟩ := all q List.mem_cons_self
      obtain ⟨bytes, few⟩ := ih fun q' inside => all q' (List.mem_cons_of_mem _ inside)
      have one := List.length_pos_of_ne_nil full
      rw [List.map_cons, List.filterMap_cons, known]
      simp only [List.flatMap_cons, List.flatten_cons, List.length_cons, List.length_append]
      rw [bytes, vocab_id_bytes loaded read complete known]
      exact ⟨rfl, by omega⟩
  rw [pieceIds, symbols, ← whole]
  exact ids qs all

theorem part_ids
    (classes : Classes) {part : Part} (given : ∀ special, part = .added special → special ∈ tok.sp ∧ special.str ≠ []) :
    (partIds classes tok part).flatMap (idBytes tok) = part.bytes ∧ (partIds classes tok part).length ≤ part.bytes.length := by
  cases part with
  | added special =>
    obtain ⟨among, full⟩ := given special rfl
    have bytes := added_id_bytes loaded read complete (loaded_special loaded read among)
    refine ⟨?_, List.length_pos_of_ne_nil full⟩
    rw [partIds, List.flatMap_cons, bytes]
    exact List.append_nil _
  | chunk chunk =>
    have pieces : ∀ pieces : List Bytes, (∀ piece ∈ pieces, piece ≠ []) →
        (pieces.flatMap (pieceIds tok)).flatMap (idBytes tok) = pieces.flatten ∧
          (pieces.flatMap (pieceIds tok)).length ≤ pieces.flatten.length := by
      intro pieces
      induction pieces with
      | nil => exact fun _ => ⟨rfl, Nat.le_refl _⟩
      | cons piece pieces ih =>
        intro full
        obtain ⟨bytes, few⟩ := piece_ids loaded read complete (full piece List.mem_cons_self)
        obtain ⟨bytes', few'⟩ := ih fun other inside => full other (List.mem_cons_of_mem _ inside)
        rw [List.flatMap_cons, List.flatMap_append, bytes, bytes', List.flatten_cons, List.length_append, List.length_append]
        exact ⟨rfl, Nat.add_le_add few few'⟩
    have all := pieces (pretokPieces classes chunk) (pretok_some chunk)
    rw [pretok_join] at all
    exact all

theorem text_ids (classes : Classes) (text : Bytes) (allow : Bool) :
    (textIds classes tok text allow).flatMap (idBytes tok) = text ∧ (textIds classes tok text allow).length ≤ text.length := by
  have given : ∀ part ∈ parts tok text allow, ∀ special, part = .added special → special ∈ tok.sp ∧ special.str ≠ [] := by
    rintro part inside special rfl
    cases allow with
    | true => exact split_added _ inside
    | false => cases List.mem_singleton.mp inside
  have join := parts_join tok text allow
  have all : ∀ parts : List Part, (∀ part ∈ parts, ∀ special, part = .added special → special ∈ tok.sp ∧ special.str ≠ []) →
      (parts.flatMap (partIds classes tok)).flatMap (idBytes tok) = parts.flatMap Part.bytes ∧
        (parts.flatMap (partIds classes tok)).length ≤ (parts.flatMap Part.bytes).length := by
    intro parts
    induction parts with
    | nil => exact fun _ => ⟨rfl, Nat.le_refl _⟩
    | cons part parts ih =>
      intro given
      obtain ⟨bytes, few⟩ := part_ids loaded read complete classes (given part List.mem_cons_self)
      obtain ⟨bytes', few'⟩ := ih fun other inside => given other (List.mem_cons_of_mem _ inside)
      rw [List.flatMap_cons, List.flatMap_append, bytes, bytes', List.flatMap_cons, List.length_append, List.length_append]
      exact ⟨rfl, Nat.add_le_add few few'⟩
  have done := all _ given
  rwa [join] at done

end Loaded

end Loaded

theorem large_enough_ids {classes : Classes} {tok : Tok} {text : Bytes} {allow : Bool} {max : Nat}
    (large : LargeEnough classes tok text allow max) : tokEncodePolicy classes tok text max allow = textIds classes tok text allow := by
  have more := large (max + (textIds classes tok text allow).length) (Nat.le_add_right _ _)
  rw [encode_eq, encode_eq, List.take_of_length_le (Nat.le_add_left _ _)] at more
  rw [encode_eq, ← more]

-- Encoding and decoding give the text back, whatever bytes it has; the pieces partition it and so do the symbols a piece.
theorem tok_round_trip (classes : Classes) (qsort : Qsort) (root : Jval) (tok : Tok) (source : Source) (text : Bytes)
    (allowAddedTokens : Bool) (maxIds maxBytes : Nat) (loaded : tokLoad qsort root = some tok)
    (read : readSource root = some source) (complete : Complete source)
    (enough : LargeEnough classes tok text allowAddedTokens maxIds) (room : text.length ≤ maxBytes) :
    tokDecode tok (tokEncodePolicy classes tok text maxIds allowAddedTokens) maxBytes = text ∧
      (cuts classes tok text allowAddedTokens).flatten = text ∧ (∀ piece ∈ cuts classes tok text allowAddedTokens, piece ≠ []) ∧
      ∀ piece, (bpeSymbols tok piece).flatten = byteString piece := by
  refine ⟨?_, cuts_join classes tok text allowAddedTokens, cuts_some classes tok text allowAddedTokens, bpe_symbols_join tok⟩
  rw [large_enough_ids enough, decode_eq, (text_ids loaded read complete classes text allowAddedTokens).1,
    List.take_of_length_le room]

theorem large_enough_of_length {qsort : Qsort} {root : Jval} {tok : Tok} {source : Source} {classes : Classes} {text : Bytes}
    {allow : Bool} {max : Nat} (loaded : tokLoad qsort root = some tok) (read : readSource root = some source)
    (complete : Complete source) (long : text.length ≤ max) : LargeEnough classes tok text allow max := by
  intro more above
  have few := (text_ids loaded read complete classes text allow).2
  rw [encode_eq, encode_eq, List.take_of_length_le (by omega), List.take_of_length_le (by omega)]

def smallSource : Source :=
  { vocab := (everyByte.map fun b => (byte2str b, b.toNat)) ++ [(utf8 "ab", 256)], merges := [some (utf8 "a", utf8 "b")],
    added := [{ str := utf8 "<|end|>", id := 257 }], ignoreMerges := false }

def smallNumber (n : Fin 1000) : Jval :=
  .num (Binary64.integer false n (by omega))

def smallRoot : Jval :=
  .obj [(utf8 "model", .obj
      [(utf8 "vocab", .obj ((everyByte.map fun b => (byte2str b, smallNumber (Fin.ofNat 1000 b.toNat))) ++
          [(utf8 "ab", smallNumber 256)])),
        (utf8 "merges", .arr [.str (utf8 "a b")])]),
    (utf8 "added_tokens", .arr [.obj [(utf8 "id", smallNumber 257), (utf8 "content", .str (utf8 "<|end|>"))]])]

def mergeQsort : Qsort where
  sort specials := specials.mergeSort fun a b => decide (b.str.length ≤ a.str.length)
  perm specials := List.mergeSort_perm specials _
  sorted specials := by
    have sorted := @List.pairwise_mergeSort _ (fun a b : Special => decide (b.str.length ≤ a.str.length))
      (fun a b c first second => by simp at first second ⊢; omega) (fun a b => by simp; omega) specials
    simpa using sorted

theorem small_root_read : readSource smallRoot = some smallSource := by
  decide +kernel

theorem small_complete : Complete smallSource where
  symbols b := by
    have listed : b ∈ everyByte := List.mem_map.mpr ⟨b.toNat, List.mem_range.mpr b.toNat_lt, UInt8.ofNat_toNat⟩
    exact List.mem_map.mpr ⟨_, List.mem_append_left _ (List.mem_map.mpr ⟨b, listed, rfl⟩), rfl⟩
  results left right inside := by
    cases List.mem_singleton.mp inside
    decide +kernel
  distinct := by
    have counted : smallSource.ids = List.range 258 := by decide +kernel
    rw [counted]
    exact List.nodup_range

-- The classes of the code points below 0x100.
def latinClasses : Classes where
  isL c := 0x41 ≤ c && c ≤ 0x5a || 0x61 ≤ c && c ≤ 0x7a || 0xc0 ≤ c && c ≤ 0xff && c != 0xd7 && c != 0xf7 ||
    c == 0xaa || c == 0xb5 || c == 0xba
  isN c := 0x30 ≤ c && c ≤ 0x39 || c == 0xb2 || c == 0xb3 || c == 0xb9 || 0xbc ≤ c && c ≤ 0xbe
  isS c := 0x09 ≤ c && c ≤ 0x0d || c == 0x20 || c == 0x85 || c == 0xa0

theorem tok_round_trip_small : ∃ tok, tokLoad mergeQsort smallRoot = some tok ∧
    tokDecode tok (tokEncode latinClasses tok (utf8 "abc<|end|>" ++ [0xff]) 11) 20 = utf8 "abc<|end|>" ++ [0xff] := by
  obtain ⟨tok, loaded⟩ : ∃ tok, tokLoad mergeQsort smallRoot = some tok := by
    rw [tokLoad, small_root_read]
    exact ⟨_, rfl⟩
  have large : LargeEnough latinClasses tok (utf8 "abc<|end|>" ++ [0xff]) true 11 :=
    large_enough_of_length loaded small_root_read small_complete (by decide)
  exact ⟨tok, loaded, (tok_round_trip latinClasses mergeQsort smallRoot tok smallSource (utf8 "abc<|end|>" ++ [0xff]) true 11 20
    loaded small_root_read small_complete large (by decide)).1⟩

end SamosaChat.Tokenizer
