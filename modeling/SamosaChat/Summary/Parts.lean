import SamosaChat.Prompt.Sections
import SamosaChat.Summary.Deliver

set_option autoImplicit false

namespace SamosaChat.Summary

open Utf8 Text Iterate
open Prompt (backUp Clean back_up_le back_up_stop)

def nativeSummarizerChunkChars : Nat :=
  1400

def sentenceEnd (c : UInt8) : Bool :=
  c == 0x0a || c == 0x2e || c == 0x21 || c == 0x3f

def sentenceBack (text : Bytes) (floor : Nat) : Nat → Option Nat
  | 0 => none
  | i + 1 =>
    if floor < i + 1 then if sentenceEnd (text.getD i 0) then some (i + 1) else sentenceBack text floor i
    else none

def nativeSummaryChunkLength (text : Bytes) (remaining : Nat) : Nat :=
  if remaining ≤ nativeSummarizerChunkChars then remaining
  else
    match sentenceBack text (nativeSummarizerChunkChars / 2) nativeSummarizerChunkChars with
    | some i => i
    | none =>
      let end_ := backUp text nativeSummarizerChunkChars
      if end_ = 0 then nativeSummarizerChunkChars else end_

def openingSampleChars : Nat :=
  60000

def partLength (openingSample : Bool) (rest : Bytes) : Nat :=
  if openingSample then
    let chunk := if rest.length > openingSampleChars then openingSampleChars else rest.length
    if chunk < rest.length then backUp rest chunk else chunk
  else nativeSummaryChunkLength rest rest.length

def takeParts (openingSample : Bool) : Nat → Bytes → List Bytes × Bytes
  | 0, rest => ([], rest)
  | room + 1, rest =>
    let rest := rest.dropWhile isSpace
    if rest = [] then ([], [])
    else
      let chunk := partLength openingSample rest
      let (parts, left) := takeParts openingSample room (rest.drop chunk)
      (rest.take chunk :: parts, left)

structure Helpers where
  batch : Nat → Helper
  once : Nat → Nat → Helper

structure Mapped where
  parts : List Bytes
  rest : Bytes
  completed : Nat
  working : Bytes
  failed : Bool

def addReply (mapped : Mapped) (reply : Bytes) : Mapped :=
  { mapped with
    completed := mapped.completed + 1
    working := (if mapped.completed = 0 then mapped.working else mapped.working ++ [0x0a]) ++ reply }

def hand (mapped : Mapped) (taken : List Bytes × Bytes) : Mapped :=
  { mapped with parts := mapped.parts ++ taken.1, rest := taken.2 }

def mapLoop (helpers : Helpers) (openingSample : Bool) (maxChunks : Nat) : Nat → Nat → Mapped → Mapped
  | 0, _, mapped => mapped
  | fuel + 1, i, mapped =>
    if mapped.rest = [] ∨ maxChunks ≤ mapped.completed then mapped
    else
      let taken := takeParts openingSample (min (maxChunks - mapped.completed) 64) mapped.rest
      match nativeSummarizeBatchNow (helpers.batch i) taken.1 with
      | none => { hand mapped taken with failed := true }
      | some replies => mapLoop helpers openingSample maxChunks fuel (i + 1) (replies.foldl addReply (hand mapped taken))

def nativeSummarizeOnce (helper : Helper) (source : Bytes) : Option Bytes :=
  if source = [] ∨ source.length > 60000 then none
  else if helper.starts && helper.writes 0 && helper.writes 1 && decide ((helper.reads 0).elim 0 List.length ≤ 8192) then
    readReply helper 0
  else none

def reduceRound (once : Nat → Helper) (working : Bytes) : Option Bytes :=
  let parts := (takeParts false working.length working).1
  match parts.zipIdx.mapM fun (part, i) => nativeSummarizeOnce (once i) part with
  | none => none
  | some replies =>
    let reduced := [0x0a].intercalate replies
    if replies = [] ∨ reduced.length ≥ working.length then none else some reduced

def reductions (helpers : Helpers) (outputCap : Nat) : Nat → Nat → Bytes → List Bytes
  | 0, _, working => [working]
  | rounds + 1, i, working =>
    if working.length > outputCap then
      match reduceRound (helpers.once i) working with
      | none => [working]
      | some reduced => working :: reductions helpers outputCap rounds (i + 1) reduced
    else [working]

def firstRound (helpers : Helpers) (text : Bytes) (sourceCap maxChunks : Nat) (openingSample : Bool) : Mapped :=
  mapLoop helpers openingSample maxChunks maxChunks 0
    { parts := [], rest := text.take (min text.length sourceCap), completed := 0, working := [], failed := false }

def rounds (helpers : Helpers) (text : Bytes) (sourceCap maxChunks outputCap : Nat) (openingSample : Bool) : List Bytes :=
  reductions helpers outputCap 4 0 (firstRound helpers text sourceCap maxChunks openingSample).working

def retained (working : Bytes) (outputCap : Nat) : Nat :=
  if working.length > outputCap then backUp working outputCap else working.length

-- The number of parts and the summary, None for a failure.
def nativeSummarizeTextImpl (helpers : Helpers) (text : Bytes) (sourceCap maxChunks outputCap : Nat) (openingSample : Bool) :
    Option (Nat × Bytes) :=
  if text = [] ∨ maxChunks = 0 ∨ outputCap = 0 then none
  else
    let mapped := firstRound helpers text sourceCap maxChunks openingSample
    if mapped.failed ∨ mapped.completed = 0 ∨ mapped.working = [] then none
    else
      let working := (rounds helpers text sourceCap maxChunks outputCap openingSample).getLastD []
      some (mapped.completed, working.take (retained working outputCap))

inductive Parted : Bytes → List Bytes → Bytes → Prop where
  | done {gap : Bytes} (rest : Bytes) (blank : ∀ c ∈ gap, isSpace c = true) : Parted (gap ++ rest) [] rest
  | part {gap part source rest : Bytes} {parts : List Bytes} (blank : ∀ c ∈ gap, isSpace c = true) (some_ : part ≠ [])
      (clean : Valid part) (later : Parted source parts rest) : Parted (gap ++ part ++ source) (part :: parts) rest

section Lengths

variable {text : Bytes}

theorem sentence_back_some {floor start i : Nat} (found : sentenceBack text floor start = some i) :
    floor < i ∧ i ≤ start ∧ sentenceEnd (text.getD (i - 1) 0) = true := by
  induction start with
  | zero => cases found
  | succ start ih =>
    rw [sentenceBack] at found
    split_ifs at found with above ends
    · cases found
      exact ⟨above, Nat.le_refl _, ends⟩
    · obtain ⟨low, high, ends'⟩ := ih found
      exact ⟨low, Nat.le_succ_of_le high, ends'⟩

theorem back_up_keeps {start i : Nat} (head : isTail (text.getD start 0) = false) (before : start ≤ i) : start ≤ backUp text i := by
  induction i with
  | zero => exact before
  | succ i ih =>
    rw [backUp]
    by_cases tail : (text.getD (i + 1) 0 &&& 0xc0 == 0x80) = true
    · rw [if_pos tail]
      rw [tail_bits] at tail
      by_cases same : start = i + 1
      · rw [same, tail] at head
        cases head
      · exact ih (by omega)
    · rw [if_neg tail]
      exact before

theorem clean_at {i : Nat} (head : isTail (text.getD i 0) = false) (inside : i < text.length) : Clean text i := by
  intro valid
  refine valid_cut (by rwa [List.take_append_drop]) fun c front => ?_
  rw [List.head?_drop, List.getElem?_eq_getElem inside] at front
  rw [List.getD_eq_getElem?_getD, List.getElem?_eq_getElem inside] at head
  cases front
  exact head

theorem second_character (valid : Valid text) (long : 4 < text.length) : ∃ i, 0 < i ∧ i ≤ 4 ∧ isTail (text.getD i 0) = false := by
  obtain ⟨code, width, decoded, rest⟩ := valid_step valid (by rintro rfl; simp at long)
  obtain ⟨low, _⟩ := decode_one_width decoded
  obtain ⟨_, size, _, _⟩ := decode_one_iff.mp decoded
  have high : width ≤ 4 := size ▸ sequence_short code
  refine ⟨width, low, high, ?_⟩
  have inside : width < text.length := by omega
  have head := valid_head rest text[width] (by rw [List.head?_drop, List.getElem?_eq_getElem inside]; rfl)
  rw [List.getD_eq_getElem?_getD, List.getElem?_eq_getElem inside]
  exact head

theorem back_up_part (valid : Valid text) {end_ : Nat} (four : 4 ≤ end_) (more : end_ < text.length) :
    0 < backUp text end_ ∧ backUp text end_ ≤ text.length ∧ Clean text (backUp text end_) := by
  obtain ⟨i, low, high, head⟩ := second_character valid (by omega)
  have keeps := back_up_keeps head (show i ≤ end_ by omega)
  have least := back_up_le text end_
  refine ⟨by omega, by omega, clean_at ?_ (by omega)⟩
  rcases back_up_stop text end_ with zero | stop
  · omega
  · exact stop

theorem clean_whole (text : Bytes) : Clean text text.length := by
  intro valid
  rw [List.take_length, List.drop_length]
  exact ⟨valid, valid_nil⟩

theorem sentence_clean {i : Nat} (some_ : 0 < i) (inside : i ≤ text.length) (ends : sentenceEnd (text.getD (i - 1) 0) = true) :
    Clean text i := by
  intro valid
  obtain ⟨k, rfl⟩ : ∃ k, i = k + 1 := ⟨i - 1, by omega⟩
  have here : k < text.length := by omega
  rw [Nat.add_sub_cancel, List.getD_eq_getElem?_getD, List.getElem?_eq_getElem here, Option.getD_some] at ends
  have ascii : text[k].toNat < 0x80 := by
    unfold sentenceEnd at ends
    simp only [Bool.or_eq_true, beq_iff_eq] at ends
    rcases ends with ((line | dot) | mark) | mark
    · rw [line]
      decide
    · rw [dot]
      decide
    · rw [mark]
      decide
    · rw [mark]
      decide
  have split : text = text.take k ++ text[k] :: text.drop (k + 1) := by
    rw [List.cons_getElem_drop_succ, List.take_append_drop]
  rw [List.take_succ_eq_append_getElem here]
  exact valid_cut_after (split ▸ valid) ascii

theorem chunk_length_part (valid : Valid text) (some_ : text ≠ []) : 0 < nativeSummaryChunkLength text text.length ∧
    nativeSummaryChunkLength text text.length ≤ text.length ∧ Clean text (nativeSummaryChunkLength text text.length) := by
  have most : nativeSummarizerChunkChars = 1400 := rfl
  have positive := List.length_pos_iff.mpr some_
  unfold nativeSummaryChunkLength
  by_cases short : text.length ≤ nativeSummarizerChunkChars
  · rw [if_pos short]
    exact ⟨positive, Nat.le_refl _, clean_whole text⟩
  rw [if_neg short]
  cases found : sentenceBack text (nativeSummarizerChunkChars / 2) nativeSummarizerChunkChars with
  | some i =>
    obtain ⟨low, high, ends⟩ := sentence_back_some found
    have some_ : 0 < i := by omega
    have within : i ≤ text.length := by omega
    exact ⟨some_, within, sentence_clean some_ within ends⟩
  | none =>
    obtain ⟨low, high, clean⟩ := back_up_part valid (show 4 ≤ nativeSummarizerChunkChars by omega) (by omega)
    dsimp only
    rw [if_neg (by omega)]
    exact ⟨low, high, clean⟩

theorem part_length_part (openingSample : Bool) (valid : Valid text) (some_ : text ≠ []) : 0 < partLength openingSample text ∧
    partLength openingSample text ≤ text.length ∧ Clean text (partLength openingSample text) := by
  have most : openingSampleChars = 60000 := rfl
  have positive := List.length_pos_iff.mpr some_
  unfold partLength
  cases openingSample with
  | false => exact chunk_length_part valid some_
  | true =>
    simp only [if_true]
    by_cases long : text.length > openingSampleChars
    · rw [if_pos long, if_pos long]
      exact back_up_part valid (by omega) long
    · rw [if_neg long, if_neg (Nat.lt_irrefl _)]
      exact ⟨positive, Nat.le_refl _, clean_whole text⟩

end Lengths

section Parts

theorem space_ascii {c : UInt8} (blank : isSpace c = true) : c.toNat < 0x80 := by
  unfold isSpace at blank
  rw [Bool.or_eq_true, beq_iff_eq, Bool.and_eq_true, decide_eq_true_eq, decide_eq_true_eq] at blank
  rcases blank with rfl | ⟨_, high⟩
  · decide
  · have below := UInt8.le_iff_toNat_le.mp high
    have thirteen : (0x0d : UInt8).toNat = 13 := rfl
    omega

theorem blanks_valid {text : Bytes} (valid : Valid text) : Valid (text.dropWhile isSpace) := by
  induction text with
  | nil => exact valid
  | cons c rest ih =>
    by_cases blank : isSpace c = true
    · have cut : Valid ([] ++ c :: rest) := valid
      rw [List.dropWhile_cons_of_pos blank]
      exact ih (valid_cut_after cut (space_ascii blank)).2
    · rw [List.dropWhile_cons_of_neg blank]
      exact valid

theorem parted_gap {gap source rest : Bytes} {parts : List Bytes} (blank : ∀ c ∈ gap, isSpace c = true)
    (parted : Parted source parts rest) : Parted (gap ++ source) parts rest := by
  cases parted with
  | done rest blank' =>
    rw [← List.append_assoc]
    exact .done rest (List.forall_mem_append.mpr ⟨blank, blank'⟩)
  | part blank' some_ clean later =>
    rw [List.append_assoc, ← List.append_assoc, ← List.append_assoc]
    exact .part (List.forall_mem_append.mpr ⟨blank, blank'⟩) some_ clean later

theorem parted_append {source rest left : Bytes} {parts more : List Bytes} (parted : Parted source parts rest)
    (later : Parted rest more left) : Parted source (parts ++ more) left := by
  induction parted with
  | done rest blank => exact parted_gap blank later
  | part blank some_ clean _ ih => exact .part blank some_ clean (ih later)

theorem parted_filter {source rest : Bytes} {parts : List Bytes} (parted : Parted source parts rest) :
    source.filter (fun c => !isSpace c) = (parts.flatten ++ rest).filter fun c => !isSpace c := by
  have none_ {gap : Bytes} (blank : ∀ c ∈ gap, isSpace c = true) : gap.filter (fun c => !isSpace c) = [] :=
    List.filter_eq_nil_iff.mpr fun c inside => by simp [blank c inside]
  induction parted with
  | done rest blank => rw [List.filter_append, none_ blank, List.nil_append, List.flatten_nil, List.nil_append]
  | part blank some_ clean later ih =>
    rw [List.append_assoc, List.filter_append, none_ blank, List.nil_append, List.filter_append, ih, ← List.filter_append,
      List.flatten_cons, List.append_assoc]

theorem take_parts_parted (openingSample : Bool) (room : Nat) : ∀ rest : Bytes, Valid rest →
    Parted rest (takeParts openingSample room rest).1 (takeParts openingSample room rest).2 ∧
      Valid (takeParts openingSample room rest).2 ∧ (takeParts openingSample room rest).1.length ≤ room := by
  induction room with
  | zero => exact fun rest valid => ⟨show Parted ([] ++ rest) [] rest from .done rest (by simp), valid, Nat.le_refl 0⟩
  | succ room ih =>
    intro rest valid
    have blank : ∀ c ∈ rest.takeWhile isSpace, isSpace c = true := fun c inside => List.mem_takeWhile_imp inside
    have whole : rest.takeWhile isSpace ++ rest.dropWhile isSpace = rest := List.takeWhile_append_dropWhile
    have left := blanks_valid valid
    rw [takeParts]
    by_cases empty : rest.dropWhile isSpace = []
    · rw [if_pos empty]
      rw [empty] at whole
      refine ⟨?_, valid_nil, Nat.zero_le _⟩
      rw [← whole]
      exact .done [] blank
    · rw [if_neg empty]
      obtain ⟨some_, within, clean⟩ := part_length_part openingSample left empty
      obtain ⟨front, back⟩ := clean left
      obtain ⟨parted, valid', few⟩ := ih ((rest.dropWhile isSpace).drop (partLength openingSample (rest.dropWhile isSpace))) back
      refine ⟨?_, valid', Nat.succ_le_succ few⟩
      have split : rest = rest.takeWhile isSpace ++ (rest.dropWhile isSpace).take (partLength openingSample (rest.dropWhile isSpace)) ++
          (rest.dropWhile isSpace).drop (partLength openingSample (rest.dropWhile isSpace)) := by
        rw [List.append_assoc, List.take_append_drop, whole]
      conv => arg 1; rw [split]
      refine .part blank (fun none_ => ?_) front parted
      have size := congrArg List.length none_
      rw [List.length_take, List.length_nil] at size
      omega

end Parts

section Map

variable {helpers : Helpers} {openingSample : Bool} {maxChunks : Nat} {source : Bytes}

structure Split (source : Bytes) (maxChunks : Nat) (mapped : Mapped) : Prop where
  parted : Parted source mapped.parts mapped.rest
  valid : Valid mapped.rest
  most : mapped.completed ≤ maxChunks

theorem batch_replies {helper : Helper} {parts replies : List Bytes} (answered : nativeSummarizeBatchNow helper parts = some replies) :
    replies.length = parts.length ∧ 0 < parts.length := by
  unfold nativeSummarizeBatchNow at answered
  split_ifs at answered with size going
  have length := congrArg List.length (map_m_some_iff.mp answered)
  rw [List.length_map, List.length_map, List.length_range] at length
  exact ⟨length.symm, by omega⟩

theorem add_replies (replies : List Bytes) (mapped : Mapped) : (replies.foldl addReply mapped).completed = mapped.completed + replies.length ∧
    (replies.foldl addReply mapped).parts = mapped.parts ∧ (replies.foldl addReply mapped).rest = mapped.rest ∧
      (replies.foldl addReply mapped).failed = mapped.failed := by
  induction replies generalizing mapped with
  | nil => exact ⟨rfl, rfl, rfl, rfl⟩
  | cons reply replies ih =>
    obtain ⟨completed, parts, rest, failed⟩ := ih (addReply mapped reply)
    rw [List.foldl_cons, completed, parts, rest, failed, List.length_cons]
    refine ⟨?_, rfl, rfl, rfl⟩
    change mapped.completed + 1 + replies.length = mapped.completed + (replies.length + 1)
    omega

theorem map_loop_split (fuel : Nat) : ∀ (i : Nat) (mapped : Mapped), Split source maxChunks mapped → mapped.failed = false →
    maxChunks ≤ mapped.completed + fuel → Split source maxChunks (mapLoop helpers openingSample maxChunks fuel i mapped) ∧
        ((mapLoop helpers openingSample maxChunks fuel i mapped).failed = true ∨
          (mapLoop helpers openingSample maxChunks fuel i mapped).rest = [] ∨
          (mapLoop helpers openingSample maxChunks fuel i mapped).completed = maxChunks) := by
  induction fuel with
  | zero =>
    intro i mapped split _ enough
    have most := split.most
    exact ⟨split, .inr (.inr (by rw [mapLoop]; omega))⟩
  | succ fuel ih =>
    intro i mapped split going enough
    have most := split.most
    rw [mapLoop]
    by_cases stop : mapped.rest = [] ∨ maxChunks ≤ mapped.completed
    · rw [if_pos stop]
      refine ⟨split, .inr ?_⟩
      rcases stop with ended | full
      · exact .inl ended
      · exact .inr (by omega)
    rw [if_neg stop]
    obtain ⟨parted, valid, few⟩ :=
      take_parts_parted openingSample (min (maxChunks - mapped.completed) 64) mapped.rest split.valid
    have joined := parted_append split.parted parted
    dsimp only
    cases answered : nativeSummarizeBatchNow (helpers.batch i)
        (takeParts openingSample (min (maxChunks - mapped.completed) 64) mapped.rest).1 with
    | none => exact ⟨⟨joined, valid, most⟩, .inl rfl⟩
    | some replies =>
      obtain ⟨length, some_⟩ := batch_replies answered
      obtain ⟨completed, parts, rest, failed⟩ :=
        add_replies replies (hand mapped (takeParts openingSample (min (maxChunks - mapped.completed) 64) mapped.rest))
      have same : (hand mapped (takeParts openingSample (min (maxChunks - mapped.completed) 64) mapped.rest)).completed =
        mapped.completed := rfl
      refine ih (i + 1) _ ⟨?_, ?_, ?_⟩ ?_ ?_
      · rw [parts, rest]
        exact joined
      · rw [rest]
        exact valid
      · rw [completed, same]
        omega
      · rw [failed]
        exact going
      · rw [completed, same]
        omega

end Map

section Rounds

variable {helpers : Helpers} {outputCap : Nat}

theorem reduce_round_shorter {once : Nat → Helper} {working reduced : Bytes} (again : reduceRound once working = some reduced) :
    reduced.length < working.length := by
  unfold reduceRound at again
  dsimp only at again
  split at again
  · cases again
  · split_ifs at again with stop
    cases again
    exact Nat.lt_of_not_le (not_or.mp stop).2

theorem reductions_head (rounds i : Nat) (working : Bytes) : (reductions helpers outputCap rounds i working).head? = some working := by
  cases rounds with
  | zero => rfl
  | succ rounds =>
    rw [reductions]
    split_ifs
    · split
      · rfl
      · rfl
    · rfl

theorem reductions_shorter (rounds : Nat) : ∀ (i : Nat) (working : Bytes),
    (reductions helpers outputCap rounds i working).IsChain (fun text next => next.length < text.length) ∧
      (reductions helpers outputCap rounds i working).length ≤ rounds + 1 := by
  induction rounds with
  | zero => exact fun i working => ⟨.singleton _, Nat.le_refl 1⟩
  | succ rounds ih =>
    intro i working
    rw [reductions]
    by_cases long : working.length > outputCap
    · rw [if_pos long]
      cases again : reduceRound (helpers.once i) working with
      | none => exact ⟨.singleton _, by simp⟩
      | some reduced =>
        obtain ⟨chain, few⟩ := ih (i + 1) reduced
        refine ⟨List.isChain_cons.mpr ⟨fun next first => ?_, chain⟩, Nat.succ_le_succ few⟩
        rw [reductions_head, Option.mem_some_iff] at first
        rw [← first]
        exact reduce_round_shorter again
    · rw [if_neg long]
      exact ⟨.singleton _, by simp⟩

end Rounds

theorem retained_le (working : Bytes) (outputCap : Nat) : retained working outputCap ≤ outputCap := by
  unfold retained
  split_ifs with long
  · exact back_up_le working outputCap
  · exact Nat.le_of_not_lt long

-- The parts of the first round are whole characters and hold all that is no blank, unless the call fails or says that there
-- were as many parts as there may be. The rounds behind it work on shorter and shorter texts, four of them at most.
structure Summarised (helpers : Helpers) (text : Bytes) (sourceCap maxChunks outputCap : Nat) (openingSample : Bool) : Prop where
  parted : Parted (text.take sourceCap) (firstRound helpers text sourceCap maxChunks openingSample).parts
    (firstRound helpers text sourceCap maxChunks openingSample).rest
  covers : (text.take sourceCap).filter (fun c => !isSpace c) =
    ((firstRound helpers text sourceCap maxChunks openingSample).parts.flatten ++
      (firstRound helpers text sourceCap maxChunks openingSample).rest).filter fun c => !isSpace c
  returns : ∀ completed summary,
    nativeSummarizeTextImpl helpers text sourceCap maxChunks outputCap openingSample = some (completed, summary) →
      0 < completed ∧ completed ≤ maxChunks ∧ summary.length ≤ outputCap ∧
        ((firstRound helpers text sourceCap maxChunks openingSample).rest = [] ∨ completed = maxChunks)
  shorter : (rounds helpers text sourceCap maxChunks outputCap openingSample).IsChain fun working next =>
    next.length < working.length
  ends : (rounds helpers text sourceCap maxChunks outputCap openingSample).length ≤ 5

theorem summary_parts (helpers : Helpers) (text : Bytes) (sourceCap maxChunks outputCap : Nat) (openingSample : Bool)
    (valid : Valid (text.take sourceCap)) : Summarised helpers text sourceCap maxChunks outputCap openingSample := by
  have source : text.take (min text.length sourceCap) = text.take sourceCap := by
    rcases Nat.le_total text.length sourceCap with short | long
    · rw [Nat.min_eq_left short, List.take_length, List.take_of_length_le short]
    · rw [Nat.min_eq_right long]
  have start : Split (text.take sourceCap) maxChunks
      { parts := [], rest := text.take (min text.length sourceCap), completed := 0, working := [], failed := false } := by
    rw [source]
    exact ⟨show Parted ([] ++ text.take sourceCap) [] (text.take sourceCap) from .done _ (by simp), valid, Nat.zero_le _⟩
  obtain ⟨split, stop⟩ := @map_loop_split helpers openingSample maxChunks _ maxChunks 0 _ start rfl (by simp)
  obtain ⟨shorter, ends⟩ := @reductions_shorter helpers outputCap 4 0
    (firstRound helpers text sourceCap maxChunks openingSample).working
  refine ⟨split.parted, parted_filter split.parted, fun completed summary said => ?_, shorter, ends⟩
  unfold nativeSummarizeTextImpl at said
  dsimp only at said
  split_ifs at said with _ refused
  obtain ⟨going, rest⟩ := not_or.mp refused
  obtain ⟨some_, _⟩ := not_or.mp rest
  rw [Option.some.injEq, Prod.mk.injEq] at said
  obtain ⟨rfl, rfl⟩ := said
  refine ⟨Nat.pos_of_ne_zero some_, split.most, ?_, stop.resolve_left going⟩
  exact (List.length_take_le _ _).trans (retained_le _ outputCap)

def cutText : Bytes :=
  utf8 "é"

def blankReply : Bytes :=
  List.replicate 20 0x0a ++ utf8 "samosa chats"

def fullReply : Bytes :=
  utf8 "samosa chats read every file..."

def shrinkingHelpers : Helpers :=
  { batch := fun _ => { starts := true, writes := fun _ => true, reads := fun _ => some blankReply, allocates := fun _ => true }
    once := fun i _ =>
      { starts := i == 0, writes := fun _ => true, reads := fun _ => some fullReply, allocates := fun _ => true } }

def Shrinks (working next : Bytes) : Prop :=
  let parts := (takeParts false working.length working).1
  let parts' := (takeParts false next.length next).1
  parts'.length < parts.length ∨ parts'.flatten.length < parts.flatten.length

theorem parts_cut_and_grow : Valid cutText ∧ (firstRound shrinkingHelpers cutText 1 1 false).parts = [[0xc3]] ∧ ¬Valid [0xc3] ∧
    rounds shrinkingHelpers cutText 1 1 5 false = [blankReply, fullReply] ∧ ¬Shrinks blankReply fullReply := by
  have run : cutText = Utf8.sequence 0xe9 ∧ (firstRound shrinkingHelpers cutText 1 1 false).parts = [[0xc3]] ∧
      decodeOne [0xc3] = none ∧ rounds shrinkingHelpers cutText 1 1 5 false = [blankReply, fullReply] ∧
        (takeParts false blankReply.length blankReply).1 = [utf8 "samosa chats"] ∧
          (takeParts false fullReply.length fullReply).1 = [fullReply] ∧ fullReply.length = 31 ∧ (utf8 "samosa chats").length = 12 := by
    decide +kernel
  obtain ⟨character, parts, lone, texts, before, after, long, short⟩ := run
  refine ⟨?_, parts, fun valid => ?_, texts, fun shrinks => ?_⟩
  · rw [character]
    exact valid_sequence (.inl (by omega))
  · obtain ⟨code, width, decoded, _⟩ := valid_step valid (by simp)
    cases lone.symm.trans decoded
  · unfold Shrinks at shrinks
    rw [before, after] at shrinks
    simp only [List.length_singleton, List.flatten_singleton, long, short] at shrinks
    omega

theorem summary_parts_plain : Valid ((utf8 "samosa").take 6) ∧ Summarised shrinkingHelpers (utf8 "samosa") 6 1 5 false := by
  have ascii : ∀ c ∈ (utf8 "samosa").take 6, c.toNat < 0x80 := by decide +kernel
  exact ⟨ascii_valid ascii, summary_parts shrinkingHelpers (utf8 "samosa") 6 1 5 false (ascii_valid ascii)⟩

end SamosaChat.Summary
