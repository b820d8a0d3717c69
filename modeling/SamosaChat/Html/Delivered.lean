import SamosaChat.Html.Repair
import SamosaChat.Lib.Find
import SamosaChat.Lib.Utf8Cut

set_option autoImplicit false

namespace SamosaChat.Html

open Utf8 Text

def plenty : Heap where
  repaired _ := true
  text _ := true
  title _ := true

def emptied (state : Extraction) : Extraction :=
  { state with text := { limit := 16 }, title := { limit := 16 } }

def side (title : Bool) (state : Extraction) : HtmlBuffer :=
  if title then state.title else state.text

def delivered (buffer : Extraction → HtmlBuffer) : Nat → Extraction → Bytes → Bytes
  | _, _, [] => []
  | 0, _, _ => []
  | rounds + 1, state, c :: after =>
    match extractOne plenty (emptied state) c after with
    | .error _ => []
    | .ok (put, next) => (buffer put).data ++ delivered buffer rounds put next

def signs : List Bytes :=
  [[0x3c], [0x0a], utf8 "\n- ", utf8 " | "]

structure Accepts (ok : Bytes → Prop) : Prop where
  none_ : ok []
  both : ∀ {first second : Bytes}, ok first → ok second → ok (first ++ second)
  sign : ∀ text ∈ signs, ok text
  entity : ∀ {name decoded : Bytes}, entityValue name = some decoded → ok decoded

structure Adds (ok : Bytes → Prop) (base put state : Extraction) : Prop where
  place : emptied state = emptied put
  text : state.text.data = base.text.data ++ put.text.data
  title : state.title.data = (base.title.data ++ put.title.data).take base.title.limit
  limits : state.text.limit = base.text.limit ∧ state.title.limit = base.title.limit
  within : state.text.data.length ≤ state.text.limit
  room : put.text.limit = 16 ∧ put.title.limit = 16
  texts : ok put.text.data
  titles : ok put.title.data

variable {ok : Bytes → Prop} {heap : Heap} {base put state state' : Extraction}

theorem adds_start (accepts : Accepts ok) (within : base.text.data.length ≤ base.text.limit)
    (inside : base.title.data.length ≤ base.title.limit) : Adds ok base (emptied base) base where
  place := rfl
  text := (List.append_nil _).symm
  title := by
    change base.title.data = (base.title.data ++ []).take base.title.limit
    rw [List.append_nil, List.take_of_length_le inside]
  limits := ⟨rfl, rfl⟩
  within := within
  room := ⟨rfl, rfl⟩
  texts := accepts.none_
  titles := accepts.none_

variable {after decoded next tag text : Bytes} {buffer : HtmlBuffer} {c : UInt8} {grants : Nat → Bool}

theorem buffer_put_limit {after : HtmlBuffer} {done : Bool}
    (puts : bufferPutn grants buffer text = (done, after)) : after.limit = buffer.limit := by
  have same : (bufferReserve grants buffer text.length).2.limit = buffer.limit := by
    unfold bufferReserve
    dsimp only
    by_cases large : (text.length > buffer.limit || buffer.data.length > buffer.limit - text.length) = true
    · rw [if_pos large]
    rw [if_neg large]
    by_cases enough : buffer.data.length + text.length + 1 ≤ buffer.cap
    · rw [if_pos enough]
    rw [if_neg enough]
    by_cases granted : grants (growCap buffer.limit (buffer.data.length + text.length + 1) 64
        (if buffer.cap = 0 then 1024 else buffer.cap)) = true
    · rw [if_pos granted]
    · rw [if_neg granted]
  unfold bufferPutn at puts
  split at puts
  · rename_i reserved
    cases puts
    rw [reserved] at same
    exact same
  · rename_i reserved
    cases puts
    rw [reserved] at same
    exact same

theorem buffer_put_within {after : HtmlBuffer}
    (puts : bufferPutn grants buffer text = (true, after)) : after.data.length ≤ after.limit := by
  rw [buffer_put_ok puts, buffer_put_limit puts, List.length_append]
  unfold bufferPutn bufferReserve at puts
  by_cases large : (text.length > buffer.limit || buffer.data.length > buffer.limit - text.length) = true
  · rw [if_pos large] at puts
    cases puts
  · simp only [Bool.or_eq_true, decide_eq_true_eq, not_or] at large
    omega

theorem same_place (place : emptied state = emptied put) :
    state.skip = put.skip ∧ state.inTitle = put.inTitle ∧ state.inHead = put.inHead := by
  have skip := congrArg Extraction.skip place
  have inTitle := congrArg Extraction.inTitle place
  have inHead := congrArg Extraction.inHead place
  exact ⟨skip, inTitle, inHead⟩

theorem put_text_adds (accepts : Accepts ok) (adds : Adds ok base put state) (fine : ok text)
    (fits : put.text.data.length + text.length ≤ 16) (puts : putText heap state text = .ok state') :
    ∃ put', putText plenty put text = .ok put' ∧ Adds ok base put' state' ∧ put'.text.data = put.text.data ++ text := by
  unfold putText at puts ⊢
  split at puts
  · rename_i buffer done
    cases puts
    obtain ⟨buffer', done', data, limit⟩ := @buffer_put_plenty put.text text plenty.text (fun _ => rfl)
      (by rw [adds.room.1]; exact fits)
    rw [done']
    refine ⟨_, rfl, ⟨adds.place, ?_, adds.title, ?_, buffer_put_within done, ?_, ?_, adds.titles⟩, data⟩
    · change buffer.data = base.text.data ++ buffer'.data
      rw [buffer_put_ok done, data, adds.text, List.append_assoc]
    · exact ⟨(buffer_put_limit done).trans adds.limits.1, adds.limits.2⟩
    · exact ⟨limit.trans adds.room.1, adds.room.2⟩
    · change ok buffer'.data
      rw [data]
      exact accepts.both adds.texts fine
  · cases puts

theorem title_put_ok {after : HtmlBuffer} {whole : Bytes}
    (puts : titlePutn grants buffer text = (true, after)) (filled : buffer.data = whole.take buffer.limit) :
    after.data = (whole ++ text).take buffer.limit ∧ after.limit = buffer.limit := by
  unfold titlePutn at puts
  rw [List.take_append]
  by_cases full : buffer.data.length ≥ buffer.limit
  · rw [if_pos full] at puts
    cases puts
    have long : buffer.limit ≤ whole.length := by
      rw [filled, List.length_take] at full
      omega
    rw [Nat.sub_eq_zero_of_le long, List.take_zero, List.append_nil]
    exact ⟨filled, rfl⟩
  · rw [if_neg full] at puts
    have short : buffer.data = whole := by
      rw [filled, List.length_take] at full
      rw [filled, List.take_of_length_le (by omega)]
    exact ⟨by rw [buffer_put_ok puts, ← filled, ← short], buffer_put_limit puts⟩

theorem put_title_adds (accepts : Accepts ok) (adds : Adds ok base put state) (fine : ok text)
    (fits : put.title.data.length + text.length < 16) (puts : putTitle heap state text = .ok state') :
    ∃ put', putTitle plenty put text = .ok put' ∧ Adds ok base put' state' := by
  unfold putTitle at puts ⊢
  split at puts
  · rename_i buffer done
    cases puts
    obtain ⟨data, limit⟩ := title_put_ok done (by rw [adds.title, adds.limits.2])
    have wide : put.title.limit = 16 := adds.room.2
    obtain ⟨buffer', done', data', limit'⟩ := @buffer_put_plenty put.title text plenty.title (fun _ => rfl) (by omega)
    have whole : titlePutn plenty.title put.title text = (true, buffer') := by
      rw [titlePutn, if_neg (by omega), List.take_of_length_le (by omega), done']
    rw [whole]
    refine ⟨_, rfl, adds.place, adds.text, ?_, ?_, adds.within, ?_, adds.texts, ?_⟩
    · change buffer.data = (base.title.data ++ buffer'.data).take base.title.limit
      rw [data, data', adds.limits.2, List.append_assoc]
    · exact ⟨adds.limits.1, limit.trans adds.limits.2⟩
    · exact ⟨adds.room.1, limit'.trans adds.room.2⟩
    · change ok buffer'.data
      rw [data']
      exact accepts.both adds.titles fine
  · cases puts

theorem put_adds (accepts : Accepts ok) (adds : Adds ok base put state) (fine : ok text)
    (empty : put.text.data = [] ∧ put.title.data = []) (short : text.length < 16) (puts : Html.put heap state text = .ok state') :
    ∃ put', Html.put plenty put text = .ok put' ∧ Adds ok base put' state' := by
  have same := (same_place adds.place).2.1
  unfold Html.put at puts ⊢
  rw [← same]
  by_cases title : state.inTitle = true
  · rw [if_pos title] at puts ⊢
    exact put_title_adds accepts adds fine (by rw [empty.2]; simpa using short) puts
  · rw [if_neg title] at puts ⊢
    obtain ⟨put', done, adds', _⟩ := put_text_adds accepts adds fine (by rw [empty.1, List.length_nil]; omega) puts
    exact ⟨put', done, adds'⟩

theorem line_break_adds (accepts : Accepts ok) (adds : Adds ok base put state) (empty : put.text.data = [])
    (breaks : lineBreak heap state tag = .ok state') :
    ∃ put', lineBreak plenty put tag = .ok put' ∧ Adds ok base put' state' ∧ put'.text.data.length ≤ 1 := by
  unfold lineBreak at breaks ⊢
  by_cases line : tag = utf8 "br" ∨ tag = utf8 "hr" ∨ blockTag tag
  · rw [if_pos line] at breaks ⊢
    obtain ⟨put', done, adds', data⟩ := put_text_adds accepts adds (accepts.sign [0x0a] (by simp [signs]))
      (by rw [empty]; decide) breaks
    exact ⟨put', done, adds', by rw [data, empty]; decide⟩
  · rw [if_neg line] at breaks ⊢
    cases breaks
    exact ⟨put, rfl, adds, by rw [empty]; decide⟩

theorem markup_adds (accepts : Accepts ok) (adds : Adds ok base put state) (empty : put.text.data = []) {closing : Bool}
    (marks : markup heap state closing tag = .ok state') :
    ∃ put', markup plenty put closing tag = .ok put' ∧ Adds ok base put' state' := by
  unfold markup at marks ⊢
  cases breaks : lineBreak heap state tag with
  | error error =>
    rw [breaks] at marks
    cases marks
  | ok middle =>
    obtain ⟨put', done, adds', short⟩ := line_break_adds accepts adds empty breaks
    rw [breaks] at marks
    rw [done]
    change (if closing = false ∧ tag = utf8 "li" then putText heap middle (utf8 "\n- ")
      else if closing = true ∧ (tag = utf8 "td" ∨ tag = utf8 "th") then putText heap middle (utf8 " | ")
      else .ok middle) = .ok state' at marks
    change ∃ put'', (if closing = false ∧ tag = utf8 "li" then putText plenty put' (utf8 "\n- ")
      else if closing = true ∧ (tag = utf8 "td" ∨ tag = utf8 "th") then putText plenty put' (utf8 " | ")
      else .ok put') = .ok put'' ∧ Adds ok base put'' state'
    have three : (utf8 "\n- ").length = 3 ∧ (utf8 " | ").length = 3 := by decide
    by_cases item : closing = false ∧ tag = utf8 "li"
    · rw [if_pos item] at marks ⊢
      obtain ⟨put'', done', adds'', _⟩ := put_text_adds accepts adds' (accepts.sign _ (by simp [signs])) (by omega) marks
      exact ⟨put'', done', adds''⟩
    rw [if_neg item] at marks ⊢
    by_cases cell : closing = true ∧ (tag = utf8 "td" ∨ tag = utf8 "th")
    · rw [if_pos cell] at marks ⊢
      obtain ⟨put'', done', adds'', _⟩ := put_text_adds accepts adds' (accepts.sign _ (by simp [signs])) (by omega) marks
      exact ⟨put'', done', adds''⟩
    rw [if_neg cell] at marks ⊢
    cases marks
    exact ⟨put', rfl, adds'⟩

theorem emptied_skipped (state : Extraction) (closing : Bool) (tag : Bytes) :
    emptied (skipped state closing tag) = skipped (emptied state) closing tag ∧
      (skipped state closing tag).text = state.text ∧ (skipped state closing tag).title = state.title := by
  unfold skipped emptied
  split_ifs <;> exact ⟨rfl, rfl, rfl⟩

theorem adds_moved (adds : Adds ok base put state) {move : Extraction → Extraction}
    (place : ∀ other, emptied (move other) = move (emptied other))
    (buffers : ∀ other, (move other).text = other.text ∧ (move other).title = other.title) :
    Adds ok base (move put) (move state) where
  place := by rw [place, place, adds.place]
  text := by rw [(buffers _).1, (buffers _).1, adds.text]
  title := by rw [(buffers _).2, (buffers _).2, adds.title]
  limits := by rw [(buffers _).1, (buffers _).2]; exact adds.limits
  within := by rw [(buffers _).1]; exact adds.within
  room := by rw [(buffers _).1, (buffers _).2]; exact adds.room
  texts := by rw [(buffers _).1]; exact adds.texts
  titles := by rw [(buffers _).2]; exact adds.titles

theorem open_tag_adds (accepts : Accepts ok) (adds : Adds ok base put state) (empty : put.text.data = []) {closing : Bool}
    (opens : openTag heap state closing tag = .ok state') :
    ∃ put', openTag plenty put closing tag = .ok put' ∧ Adds ok base put' state' := by
  obtain ⟨skip, inTitle, _⟩ := same_place adds.place
  unfold openTag at opens ⊢
  by_cases skips : state.skip ≠ []
  · rw [if_pos skips] at opens
    rw [if_pos (skip ▸ skips)]
    cases opens
    exact ⟨_, rfl, adds_moved adds (fun other => (emptied_skipped other closing tag).1)
      fun other => (emptied_skipped other closing tag).2⟩
  rw [if_neg skips] at opens
  rw [if_neg (skip ▸ skips)]
  by_cases starts : closing = false ∧ skipTag tag
  · rw [if_pos starts] at opens ⊢
    cases opens
    exact ⟨_, rfl, @adds_moved ok base put state adds (fun other => { other with skip := [tag] }) (fun _ => rfl)
      fun _ => ⟨rfl, rfl⟩⟩
  rw [if_neg starts] at opens ⊢
  by_cases title : tag = utf8 "title"
  · rw [if_pos title] at opens ⊢
    cases opens
    exact ⟨_, rfl, @adds_moved ok base put state adds (fun other => { other with inTitle := !closing }) (fun _ => rfl)
      fun _ => ⟨rfl, rfl⟩⟩
  rw [if_neg title] at opens ⊢
  by_cases head : tag = utf8 "head"
  · rw [if_pos head] at opens ⊢
    cases opens
    exact ⟨_, rfl, @adds_moved ok base put state adds (fun other => { other with inHead := !closing }) (fun _ => rfl)
      fun _ => ⟨rfl, rfl⟩⟩
  rw [if_neg head] at opens ⊢
  by_cases inside : state.inTitle = true
  · rw [if_pos inside] at opens
    rw [if_pos (inTitle ▸ inside)]
    cases opens
    exact ⟨put, rfl, adds⟩
  rw [if_neg inside] at opens
  rw [if_neg (inTitle ▸ inside)]
  exact markup_adds accepts adds empty opens

theorem map_ok {α β : Type} {result : Except HtmlError α} {f : α → β} {value : β} (mapped : result.map f = .ok value) :
    ∃ inner, result = .ok inner ∧ f inner = value := by
  cases result with
  | error error => cases mapped
  | ok inner =>
    cases mapped
    exact ⟨inner, rfl, rfl⟩

theorem extract_tag_adds (accepts : Accepts ok) (adds : Adds ok base put state) (empty : put.text.data = [] ∧ put.title.data = [])
    (tags : extractTag heap state after = .ok (state', next)) :
    ∃ put', extractTag plenty put after = .ok (put', next) ∧ Adds ok base put' state' := by
  obtain ⟨skip, inTitle, inHead⟩ := same_place adds.place
  have less : ok [0x3c] := accepts.sign _ (by simp [signs])
  unfold extractTag at tags ⊢
  rw [← skip, ← inTitle, ← inHead]
  cases ends : tagEnd 0 after with
  | none =>
    rw [ends] at tags
    dsimp only at tags ⊢
    by_cases skips : state.skip ≠ []
    · rw [if_pos skips] at tags ⊢
      cases tags
      exact ⟨put, rfl, adds⟩
    rw [if_neg skips] at tags ⊢
    obtain ⟨inner, puts, same⟩ := map_ok tags
    cases same
    obtain ⟨put', done, adds'⟩ := put_adds accepts adds less empty (by decide) puts
    exact ⟨put', by rw [done]; rfl, adds'⟩
  | some stop =>
    rw [ends] at tags
    dsimp only at tags ⊢
    cases name : tagName (after.take stop) with
    | none =>
      rw [name] at tags
      dsimp only at tags ⊢
      by_cases shown : state.skip = [] ∧ after.head? ≠ some 0x21 ∧ after.head? ≠ some 0x3f
      · rw [if_pos shown] at tags ⊢
        by_cases title : state.inTitle = true
        · rw [if_pos title] at tags ⊢
          obtain ⟨inner, puts, same⟩ := map_ok tags
          cases same
          obtain ⟨put', done, adds'⟩ := put_title_adds accepts adds less (by rw [empty.2]; decide) puts
          exact ⟨put', by rw [done]; rfl, adds'⟩
        rw [if_neg title] at tags ⊢
        by_cases head : state.inHead = true
        · rw [if_pos head] at tags ⊢
          cases tags
          exact ⟨put, rfl, adds⟩
        rw [if_neg head] at tags ⊢
        obtain ⟨inner, puts, same⟩ := map_ok tags
        cases same
        obtain ⟨put', done, adds', _⟩ := put_text_adds accepts adds less (by rw [empty.1]; decide) puts
        exact ⟨put', by rw [done]; rfl, adds'⟩
      · rw [if_neg shown] at tags ⊢
        cases tags
        exact ⟨put, rfl, adds⟩
    | some found =>
      rw [name] at tags
      dsimp only at tags ⊢
      obtain ⟨inner, opens, same⟩ := map_ok tags
      cases same
      obtain ⟨put', done, adds'⟩ := open_tag_adds accepts adds empty.1 opens
      exact ⟨put', by rw [done]; rfl, adds'⟩

def Fine (text : Bytes) : Prop :=
  Valid text ∧ (0 : UInt8) ∉ text

theorem fine_nil : Fine [] :=
  ⟨valid_nil, List.not_mem_nil⟩

theorem fine_append {first second : Bytes} (left : Fine first) (right : Fine second) : Fine (first ++ second) :=
  ⟨valid_append left.1 right.1, by
    rw [List.mem_append]
    exact not_or.mpr ⟨left.2, right.2⟩⟩

theorem fine_sequence {code : Nat} (scalar : Scalar code) (some_ : code ≠ 0) : Fine (sequence code) := by
  refine ⟨valid_sequence scalar, fun inside => ?_⟩
  by_cases small : code < 0x80
  · rw [Utf8.sequence, if_pos small] at inside
    have same : (0 : UInt8).toNat = code := by
      rw [List.mem_singleton.mp inside, to_nat_of_nat (by omega)]
    exact some_ same.symm
  · have wide := sequence_wide scalar (by omega) inside
    exact absurd wide (by decide)

theorem fine_one (ascii : c.toNat < 0x80) (some_ : c ≠ 0) : Fine [c] := by
  rw [← sequence_one ascii]
  refine fine_sequence (Or.inl (by omega)) fun none_ => some_ ?_
  rw [← of_nat_eq none_]
  rfl

theorem or_add (a : Nat) {i low : Nat} (small : low < 2 ^ i) : a * 2 ^ i ||| low = a * 2 ^ i + low := by
  rw [← Nat.shiftLeft_eq]
  exact (Nat.shiftLeft_add_eq_or_of_lt small a).symm

theorem or_tail (n : Nat) : 0x80 ||| n % 64 = 0x80 + n % 64 :=
  or_add 2 (i := 6) (Nat.mod_lt _ (by decide))

theorem utf8_encode_eq {code : Nat} (scalar : Scalar code) : utf8Encode code = sequence code := by
  have mask (n : Nat) : n &&& 0x3f = n % 64 := Nat.and_two_pow_sub_one_eq_mod n 6
  have shift (n : Nat) : code >>> n = code / 2 ^ n := Nat.shiftRight_eq_div_pow code n
  unfold Scalar at scalar
  unfold utf8Encode Utf8.sequence
  rw [mask, mask, mask, shift, shift, shift, or_tail, or_tail, or_tail]
  by_cases one : code < 0x80
  · rw [if_pos (by omega), if_pos one]
  rw [if_neg (by omega), if_neg one]
  by_cases two : code < 0x800
  · have lead : 0xc0 ||| code / 2 ^ 6 = 0xc0 + code / 2 ^ 6 := or_add 3 (i := 6) (by omega)
    rw [if_pos (by omega), if_pos two, lead]
    rfl
  rw [if_neg (by omega), if_neg two]
  by_cases three : code < 0x10000
  · have lead : 0xe0 ||| code / 2 ^ 12 = 0xe0 + code / 2 ^ 12 := or_add 7 (i := 5) (by omega)
    rw [if_pos (by simp; omega), if_pos three, lead]
    rfl
  · have lead : 0xf0 ||| code / 2 ^ 18 = 0xf0 + code / 2 ^ 18 := or_add 15 (i := 4) (by omega)
    rw [if_neg (by simp; omega), if_neg three, if_pos (by omega), lead]
    rfl

theorem numeric_entity_some {digits : Bytes} (value : numericEntity digits = some decoded) :
    ∃ code, Scalar code ∧ code ≠ 0 ∧ decoded = sequence code := by
  unfold numericEntity at value
  dsimp only at value
  generalize (if (digits.head? == some 0x78 || digits.head? == some 0x58) = true then digits.drop 1 else digits) = body at value
  generalize (if (digits.head? == some 0x78 || digits.head? == some 0x58) = true then 16 else 10) = base at value
  split at value
  · cases value
  · split at value
    · cases value
    · rename_i code read
      split_ifs at value with control large
      cases value
      simp only [Bool.or_eq_true, Bool.and_eq_true, decide_eq_true_eq, not_or, not_and] at control
      have scalar : Scalar code := by
        unfold Scalar
        by_contra outside
        refine large ?_
        unfold utf8Encode
        rw [if_neg (by omega), if_neg (by omega), if_neg (by simp; omega), if_neg (by omega)]
        rfl
      exact ⟨code, scalar, by omega, utf8_encode_eq scalar⟩

theorem entity_some {name : Bytes} (value : entityValue name = some decoded) :
    ∃ code, Scalar code ∧ code ≠ 0 ∧ decoded = sequence code := by
  unfold entityValue at value
  split at value
  · cases value
  · split_ifs at value
    · exact numeric_entity_some value
    · obtain ⟨entry, found, rfl⟩ := Option.map_eq_some_iff.mp value
      have all : ∀ entry ∈ named, ∃ code ∈ [0x26, 0x3c, 0x3e, 0x22, 0x27, 0x20, 0xa9, 0xae, 0x2014, 0x2013, 0x2026, 0xab, 0xbb],
          entry.2 = sequence code := by decide
      obtain ⟨code, inside, same⟩ := all entry (List.mem_of_find?_eq_some found)
      have fine : ∀ code ∈ [0x26, 0x3c, 0x3e, 0x22, 0x27, 0x20, 0xa9, 0xae, 0x2014, 0x2013, 0x2026, 0xab, 0xbb],
          Scalar code ∧ code ≠ 0 := by decide
      exact ⟨code, (fine code inside).1, (fine code inside).2, same⟩

theorem entity_short {name : Bytes} (value : entityValue name = some decoded) : decoded.length ≤ 4 := by
  obtain ⟨code, _, _, rfl⟩ := entity_some value
  exact sequence_short code

theorem extract_one_adds (accepts : Accepts ok) (within : base.text.data.length ≤ base.text.limit)
    (inside : base.title.data.length ≤ base.title.limit) (one : ok [c]) (round : extractOne heap base c after = .ok (state', next)) :
    ∃ put', extractOne plenty (emptied base) c after = .ok (put', next) ∧ Adds ok base put' state' := by
  have adds := adds_start accepts within inside
  unfold extractOne at round ⊢
  by_cases tag : c = 0x3c
  · rw [if_pos tag] at round ⊢
    by_cases comment : asciiPrefixCi (utf8 "<!--") (c :: after) = true
    · rw [if_pos comment] at round ⊢
      cases ends : find (utf8 "-->") (after.drop 3) with
      | none =>
        rw [ends] at round
        cases round
        exact ⟨_, rfl, adds⟩
      | some i =>
        rw [ends] at round
        cases round
        exact ⟨_, rfl, adds⟩
    · rw [if_neg comment] at round ⊢
      exact extract_tag_adds accepts adds ⟨rfl, rfl⟩ round
  rw [if_neg tag] at round ⊢
  change ∃ put', (if base.skip ≠ [] ∨ (base.inHead ∧ !base.inTitle) then _ else _) = _ ∧ _
  by_cases hidden : base.skip ≠ [] ∨ (base.inHead ∧ !base.inTitle)
  · rw [if_pos hidden] at round ⊢
    cases round
    exact ⟨_, rfl, adds⟩
  rw [if_neg hidden] at round ⊢
  cases entity : if c = 0x26 then entityAt after else none with
  | none =>
    rw [entity] at round
    obtain ⟨inner, puts, same⟩ := map_ok round
    cases same
    obtain ⟨put', done, adds'⟩ := put_adds accepts adds one ⟨rfl, rfl⟩ (by simp) puts
    exact ⟨put', by dsimp only; rw [done]; rfl, adds'⟩
  | some found =>
    obtain ⟨decoded, after'⟩ := found
    rw [entity] at round
    have value : ∃ name, entityValue name = some decoded := by
      obtain ⟨amp, entity⟩ := within_guard entity nofun
      unfold entityAt at entity
      dsimp only at entity
      split_ifs at entity
      obtain ⟨_, value, same⟩ := Option.map_eq_some_iff.mp entity
      cases same
      exact ⟨_, value⟩
    obtain ⟨name, value⟩ := value
    obtain ⟨inner, puts, same⟩ := map_ok round
    cases same
    obtain ⟨put', done, adds'⟩ := put_adds accepts adds (accepts.entity value) ⟨rfl, rfl⟩
      (by have := entity_short value; omega) puts
    exact ⟨put', by dsimp only; rw [done]; rfl, adds'⟩

theorem fine_accepts : Accepts Fine where
  none_ := fine_nil
  both := fine_append
  sign := by
    have plain : ∀ text ∈ signs, ∀ c ∈ text, c.toNat < 0x80 ∧ c ≠ 0 := by decide
    intro text inside
    exact ⟨ascii_valid fun c here => (plain text inside c here).1, fun here => (plain text inside 0 here).2 rfl⟩
  entity value := by
    obtain ⟨code, scalar, some_, rfl⟩ := entity_some value
    exact fine_sequence scalar some_

theorem any_accepts : Accepts fun _ => True where
  none_ := trivial
  both _ _ := trivial
  sign _ _ := trivial
  entity _ := trivial

theorem fine_behind {k : Nat} (fine : Fine text) (there : text[k]? = some c)
    (ascii : c.toNat < 0x80) : Fine (text.drop (k + 1)) ∧ (text.drop (k + 1)).length ≤ text.length := by
  obtain ⟨inside, same⟩ := List.getElem?_eq_some_iff.mp there
  have split : text.take k ++ c :: text.drop (k + 1) = text := by
    rw [← same, ← List.drop_eq_getElem_cons inside, List.take_append_drop]
  refine ⟨⟨(valid_cut_after (by rw [split]; exact fine.1) ascii).2, fun inside => fine.2 (List.mem_of_mem_drop inside)⟩, ?_⟩
  rw [List.length_drop]
  omega

theorem tag_end_char {quote : UInt8} {stop : Nat} (ends : tagEnd quote text = some stop) : text[stop]? = some 0x3e := by
  induction text generalizing quote stop with
  | nil => cases ends
  | cons c rest ih =>
    have later {quote' : UInt8} (found : (tagEnd quote' rest).map (· + 1) = some stop) : (c :: rest)[stop]? = some 0x3e := by
      obtain ⟨stop', found', rfl⟩ := Option.map_eq_some_iff.mp found
      exact ih found'
    rw [tagEnd] at ends
    split_ifs at ends with quoted same opens closes
    · exact later ends
    · exact later ends
    · exact later ends
    · cases ends
      rw [closes]
      rfl
    · exact later ends

theorem extract_tag_next (tags : extractTag heap state after = .ok (state', next)) (fine : Fine after) :
    Fine next ∧ next.length ≤ after.length := by
  have same : Fine after ∧ after.length ≤ after.length := ⟨fine, Nat.le_refl _⟩
  unfold extractTag at tags
  cases ends : tagEnd 0 after with
  | none =>
    rw [ends] at tags
    dsimp only at tags
    split_ifs at tags
    · cases tags
      exact ⟨fine_nil, Nat.zero_le _⟩
    · obtain ⟨_, _, here⟩ := map_ok tags
      cases here
      exact same
  | some stop =>
    have behind := fine_behind fine (tag_end_char ends) (by decide)
    rw [ends] at tags
    dsimp only at tags
    cases name : tagName (after.take stop) with
    | none =>
      rw [name] at tags
      dsimp only at tags
      split_ifs at tags
      · obtain ⟨_, _, here⟩ := map_ok tags
        cases here
        exact same
      · cases tags
        exact same
      · obtain ⟨_, _, here⟩ := map_ok tags
        cases here
        exact same
      · cases tags
        exact behind
    | some found =>
      rw [name] at tags
      obtain ⟨_, _, here⟩ := map_ok tags
      cases here
      exact behind

theorem extract_one_next (round : extractOne heap state c after = .ok (state', next))
    (fine : Fine after) : Fine next ∧ next.length ≤ after.length := by
  have same : Fine after ∧ after.length ≤ after.length := ⟨fine, Nat.le_refl _⟩
  unfold extractOne at round
  by_cases tag : c = 0x3c
  · rw [if_pos tag] at round
    by_cases comment : asciiPrefixCi (utf8 "<!--") (c :: after) = true
    · rw [if_pos comment] at round
      cases ends : find (utf8 "-->") (after.drop 3) with
      | none =>
        rw [ends] at round
        cases round
        exact ⟨fine_nil, Nat.zero_le _⟩
      | some i =>
        rw [ends] at round
        cases round
        obtain ⟨tail, whole⟩ := (find_some ends).1
        have there : after[3 + i + 2]? = some 0x3e := by
          rw [List.drop_drop] at whole
          have third := congrArg (·[2]?) whole
          simp only [List.getElem?_drop] at third
          rw [← third]
          rfl
        exact fine_behind fine there (by decide)
    · rw [if_neg comment] at round
      exact extract_tag_next round fine
  rw [if_neg tag] at round
  by_cases hidden : state.skip ≠ [] ∨ (state.inHead ∧ !state.inTitle)
  · rw [if_pos hidden] at round
    cases round
    exact same
  rw [if_neg hidden] at round
  cases entity : if c = 0x26 then entityAt after else none with
  | none =>
    rw [entity] at round
    obtain ⟨_, _, here⟩ := map_ok round
    cases here
    exact same
  | some found =>
    rw [entity] at round
    obtain ⟨_, _, here⟩ := map_ok round
    cases here
    by_cases amp : c = 0x26
    · rw [if_pos amp, entityAt] at entity
      split_ifs at entity with semi
      obtain ⟨_, _, here⟩ := Option.map_eq_some_iff.mp entity
      cases here
      exact fine_behind fine semi (by decide)
    · rw [if_neg amp] at entity
      cases entity

def shows (title : Bool) (state : Extraction) : Bool :=
  if state.skip ≠ [] ∨ (state.inHead ∧ !state.inTitle) then false else state.inTitle == title

theorem delivered_place (buffer : Extraction → HtmlBuffer) {a b : Extraction} (same : emptied a = emptied b) (rounds : Nat)
    (rest : Bytes) : delivered buffer rounds a rest = delivered buffer rounds b rest := by
  cases rounds with
  | zero => cases rest <;> rfl
  | succ rounds =>
    cases rest with
    | nil => rfl
    | cons c after => rw [delivered, delivered, same]

theorem put_emptied (state : Extraction) (short : text.length < 16) :
    ∃ put, Html.put plenty (emptied state) text = .ok put ∧ emptied put = emptied state ∧
      ∀ title, (side title put).data = if (state.inTitle == title) = true then text else [] := by
  obtain ⟨buffer, done, data, _⟩ := @buffer_put_plenty { limit := 16 } text (fun _ => true) (fun _ => rfl)
    (by simp; omega)
  rw [List.nil_append] at data
  unfold Html.put
  cases inTitle : state.inTitle with
  | false =>
    refine ⟨{ emptied state with text := buffer }, ?_, rfl, fun title => ?_⟩
    · rw [if_neg (by rw [show (emptied state).inTitle = state.inTitle from rfl, inTitle]; decide)]
      unfold putText
      rw [show bufferPutn plenty.text (emptied state).text text = (true, buffer) from done]
    · cases title with
      | false => exact data
      | true => rfl
  | true =>
    have whole : titlePutn plenty.title (emptied state).title text = (true, buffer) := by
      have room : text.take (16 - 0) = text := List.take_of_length_le (by omega)
      change bufferPutn plenty.title { limit := 16 } (text.take (16 - 0)) = (true, buffer)
      rw [room]
      exact done
    refine ⟨{ emptied state with title := buffer }, ?_, rfl, fun title => ?_⟩
    · rw [if_pos (by rw [show (emptied state).inTitle = state.inTitle from rfl, inTitle])]
      unfold putTitle
      rw [whole]
    · cases title with
      | false => rfl
      | true => exact data

theorem wide_round (title : Bool) (state : Extraction) (wide : 0x80 ≤ c.toNat) (after : Bytes) :
    ∃ put, extractOne plenty (emptied state) c after = .ok (put, after) ∧ emptied put = emptied state ∧
      (side title put).data = if shows title state then [c] else [] := by
  have plain : c ≠ 0x3c ∧ c ≠ 0x26 := by
    constructor <;>
      rintro rfl <;>
      exact absurd wide (by decide)
  unfold extractOne shows
  rw [if_neg plain.1, if_neg plain.2]
  by_cases hidden : state.skip ≠ [] ∨ (state.inHead ∧ !state.inTitle)
  · refine ⟨emptied state, if_pos hidden, rfl, ?_⟩
    rw [if_pos hidden]
    cases title <;> rfl
  · obtain ⟨put, done, place, data⟩ := put_emptied state (show [c].length < 16 by simp)
    refine ⟨put, ?_, place, ?_⟩
    · refine (if_neg hidden).trans ?_
      dsimp only
      rw [done]
      rfl
    · rw [data, if_neg hidden]

theorem delivered_wide (title : Bool) (state : Extraction) {wide : Bytes} (high : ∀ c ∈ wide, 0x80 ≤ c.toNat) (rounds : Nat)
    (rest : Bytes) : delivered (side title) (wide.length + rounds) state (wide ++ rest) =
      (if shows title state then wide else []) ++ delivered (side title) rounds state rest := by
  induction wide with
  | nil =>
    rw [List.length_nil, Nat.zero_add, List.nil_append]
    split_ifs <;> rfl
  | cons c wide ih =>
    obtain ⟨put, round, place, data⟩ := wide_round title state (high c List.mem_cons_self) (wide ++ rest)
    rw [List.length_cons, Nat.add_right_comm, List.cons_append, delivered, round]
    dsimp only
    rw [delivered_place _ place, ih fun d inside => high d (List.mem_cons_of_mem _ inside), data, ← List.append_assoc]
    split_ifs <;> rfl

theorem delivered_fine (title : Bool) (rounds : Nat) :
    ∀ (state : Extraction) (rest : Bytes), rest.length ≤ rounds → Fine rest → Fine (delivered (side title) rounds state rest) := by
  induction rounds using Nat.strong_induction_on with
  | _ rounds ih =>
    intro state rest enough fine
    cases rest with
    | nil =>
      cases rounds <;> exact fine_nil
    | cons c after =>
      by_cases ascii : c.toNat < 0x80
      · obtain ⟨rounds, rfl⟩ : ∃ k, rounds = k + 1 := ⟨rounds - 1, by simp at enough; omega⟩
        rw [delivered]
        cases round : extractOne plenty (emptied state) c after with
        | error error => exact fine_nil
        | ok both =>
          obtain ⟨put, next⟩ := both
          have zero : c ≠ 0 := fun same => fine.2 (by rw [same]; exact List.mem_cons_self)
          have behind : Fine after := by
            have cut := @valid_cut_after [] after c fine.1 ascii
            exact ⟨cut.2, fun inside => fine.2 (List.mem_cons_of_mem _ inside)⟩
          obtain ⟨put', again, adds⟩ := extract_one_adds fine_accepts (Nat.zero_le _) (Nat.zero_le _)
            (fine_one ascii zero) round
          cases round.symm.trans again
          obtain ⟨nextFine, shorter⟩ := extract_one_next round behind
          refine fine_append ?_ (ih rounds (by omega) put next (by simp at enough; omega) nextFine)
          unfold side
          split_ifs
          · exact adds.titles
          · exact adds.texts
      · obtain ⟨code, width, decoded, _⟩ := valid_step fine.1 (by simp)
        obtain ⟨scalar, size, tail, whole⟩ := decode_one_iff.mp decoded
        have high : ∀ byte ∈ Utf8.sequence code, 0x80 ≤ byte.toNat := by
          intro byte inside
          have front : (c :: after).take width = Utf8.sequence code := by rw [← whole, size, List.take_left]
          exact decoded_wide ascii decoded (by rw [front]; exact inside)
        have split : Fine (Utf8.sequence code) ∧ Fine tail := by
          rw [← whole] at fine
          exact ⟨⟨valid_sequence scalar, fun inside => fine.2 (List.mem_append_left _ inside)⟩,
            valid_rest fine.1 (valid_sequence scalar), fun inside => fine.2 (List.mem_append_right _ inside)⟩
        have length := congrArg List.length whole
        rw [List.length_append] at length
        have some_ := List.length_pos_iff.mpr (sequence_ne_nil code)
        obtain ⟨later, rfl⟩ : ∃ k, rounds = (Utf8.sequence code).length + k :=
          ⟨rounds - (Utf8.sequence code).length, by omega⟩
        rw [← whole, delivered_wide title state high]
        refine fine_append ?_ (ih later (by omega) state tail (by omega) split.2)
        split_ifs
        · exact split.1
        · exact fine_nil

theorem take_take_append (first second : Bytes) (n : Nat) : (first.take n ++ second).take n = (first ++ second).take n := by
  rw [List.take_append, List.take_append, List.take_take, Nat.min_self, List.length_take]
  congr 2
  omega

theorem extract_loop_adds (heap : Heap) (rounds : Nat) :
    ∀ {state state' : Extraction} {rest : Bytes}, state.text.data.length ≤ state.text.limit →
      state.title.data.length ≤ state.title.limit → extractLoop heap rounds state rest = .ok state' →
      state'.text.data = state.text.data ++ delivered (side false) rounds state rest ∧
        state'.title.data = (state.title.data ++ delivered (side true) rounds state rest).take state.title.limit ∧
        state'.text.data.length ≤ state.text.limit ∧
        state'.text.limit = state.text.limit ∧ state'.title.limit = state.title.limit := by
  induction rounds with
  | zero =>
    intro state state' rest within inside ends
    have same : extractLoop heap 0 state rest = .ok state := by cases rest <;> rfl
    cases same.symm.trans ends
    have none_ (title : Bool) : delivered (side title) 0 state rest = [] := by cases rest <;> rfl
    rw [none_, none_, List.append_nil, List.append_nil, List.take_of_length_le inside]
    exact ⟨rfl, rfl, within, rfl, rfl⟩
  | succ rounds ih =>
    intro state state' rest within inside ends
    cases rest with
    | nil =>
      cases ends
      rw [delivered, delivered, List.append_nil, List.append_nil, List.take_of_length_le inside]
      exact ⟨rfl, rfl, within, rfl, rfl⟩
    | cons c after =>
      rw [extractLoop] at ends
      cases round : extractOne heap state c after with
      | error error =>
        rw [round] at ends
        cases ends
      | ok both =>
        obtain ⟨middle, next⟩ := both
        rw [round] at ends
        obtain ⟨put, again, adds⟩ := extract_one_adds any_accepts within inside trivial round
        obtain ⟨textLimit, titleLimit⟩ := adds.limits
        obtain ⟨text, title, within', limits⟩ := ih adds.within
          (by rw [adds.title, titleLimit, List.length_take]; exact Nat.min_le_left _ _) ends
        have rest_ (title : Bool) : delivered (side title) rounds middle next = delivered (side title) rounds put next :=
          delivered_place _ adds.place rounds next
        rw [delivered, delivered, again]
        dsimp only
        refine ⟨?_, ?_, textLimit ▸ within', limits.1.trans textLimit, limits.2.trans titleLimit⟩
        · rw [text, adds.text, rest_, List.append_assoc]
          rfl
        · rw [title, adds.title, titleLimit, rest_, take_take_append, List.append_assoc]
          rfl

end SamosaChat.Html
