import SamosaChat.Lib.Utf8Cut
import SamosaChat.Prompt.Review

set_option autoImplicit false

namespace SamosaChat.Prompt

open Utf8 Text Json

theorem back_up_le (text : Bytes) (end_ : Nat) : backUp text end_ ≤ end_ := by
  induction end_ with
  | zero => exact Nat.le_refl _
  | succ end_ ih =>
    rw [backUp]
    split_ifs
    · exact Nat.le_succ_of_le ih
    · exact Nat.le_refl _

theorem back_up_stop (text : Bytes) (end_ : Nat) : backUp text end_ = 0 ∨ isTail (text.getD (backUp text end_) 0) = false := by
  induction end_ with
  | zero => exact .inl rfl
  | succ end_ ih =>
    rw [backUp]
    split_ifs with tail
    · exact ih
    · right
      rw [Bool.not_eq_true] at tail
      rw [← tail_bits]
      exact tail

theorem prefix_le (text : Bytes) (requested : Nat) : textUtf8Prefix text requested ≤ text.length := by
  unfold textUtf8Prefix
  split_ifs with short
  · exact Nat.le_of_lt (Nat.lt_of_le_of_lt (back_up_le text requested) short)
  · exact Nat.le_refl _

theorem prefix_within (rest : Bytes) (requested : Nat) : textUtf8Prefix rest requested ≤ requested := by
  unfold textUtf8Prefix
  split_ifs with short
  · exact back_up_le rest requested
  · exact Nat.le_of_not_lt short

def Clean (text : Bytes) (cut : Nat) : Prop :=
  Valid text → Valid (text.take cut) ∧ Valid (text.drop cut)

theorem prefix_clean (text : Bytes) (requested : Nat) : Clean text (textUtf8Prefix text requested) := by
  intro valid
  unfold textUtf8Prefix
  split_ifs with short
  · rcases back_up_stop text requested with zero | stop
    · rw [zero]
      exact ⟨valid_nil, valid⟩
    · have inside : backUp text requested < text.length := Nat.lt_of_le_of_lt (back_up_le text requested) short
      refine valid_cut (by rwa [List.take_append_drop]) fun c head => ?_
      rw [List.head?_drop] at head
      rw [List.getD_eq_getElem?_getD, List.getElem?_eq_getElem inside] at stop
      rw [List.getElem?_eq_getElem inside] at head
      cases head
      exact stop
  · rw [List.take_length, List.drop_length]
    exact ⟨valid, valid_nil⟩

theorem line_end_some {rest : Bytes} {floor start at_ : Nat} (found : lineEnd rest floor start = some at_) :
    floor < at_ ∧ at_ ≤ start ∧ rest.getD (at_ - 1) 0 = 0x0a := by
  induction start with
  | zero => cases found
  | succ start ih =>
    rw [lineEnd] at found
    split_ifs at found with above line
    · cases found
      exact ⟨above, Nat.le_refl _, line⟩
    · obtain ⟨low, high, line'⟩ := ih found
      exact ⟨low, Nat.le_succ_of_le high, line'⟩

-- The section is what was measured, or ends at a line end in the last quarter of it.
def CutBack (rest : Bytes) (best cut : Nat) : Prop :=
  cut = best ∨ best * 3 / 4 < cut ∧ cut ≤ best ∧ rest.getD (cut - 1) 0 = 0x0a

theorem cut_back_spec (rest : Bytes) (best : Nat) : CutBack rest best (cutBack rest best) := by
  unfold cutBack
  split_ifs with shorter
  · cases found : lineEnd rest (best * 3 / 4) best with
    | none => exact .inl rfl
    | some at_ => exact .inr (line_end_some found)
  · exact .inl rfl

variable {best : Nat}

theorem cut_back_bounds {rest : Bytes} {cut : Nat} (back : CutBack rest best cut) (some_ : 0 < best) : 0 < cut ∧ cut ≤ best := by
  rcases back with rfl | ⟨low, high, _⟩
  · exact ⟨some_, Nat.le_refl _⟩
  · exact ⟨by omega, high⟩

theorem cut_back_clean {rest : Bytes} {cut : Nat} (back : CutBack rest best cut) (inside : best ≤ rest.length)
    (clean : Clean rest best) : Clean rest cut := by
  rcases back with rfl | ⟨low, high, line⟩
  · exact clean
  · intro valid
    obtain ⟨k, rfl⟩ : ∃ k, cut = k + 1 := ⟨cut - 1, by omega⟩
    have within : k < rest.length := by omega
    rw [Nat.add_sub_cancel, List.getD_eq_getElem?_getD, List.getElem?_eq_getElem within, Option.getD_some] at line
    have split : rest = rest.take k ++ 0x0a :: rest.drop (k + 1) := by
      rw [← line, List.cons_getElem_drop_succ, List.take_append_drop]
    have cut := valid_cut_after (split ▸ valid) (by decide)
    rw [List.take_succ_eq_append_getElem within, line]
    exact cut

variable {context offset : Nat} {review : Review} {source : Bytes}

section Loops

variable {outside : Outside} {measure : Bytes → Bytes → Nat → Nat}

def Measured (rest : Bytes) (fits : Nat → Bool) (best : Nat) : Prop :=
  best = 0 ∨ fits best = true ∧ ∃ middle, best = textUtf8Prefix rest middle

theorem search_prefix_ends {rest : Bytes} {fits : Nat → Bool} (rounds : Nat) {looks low high : Nat}
    (some_ : 0 < low) (enough : high + 1 - low < rounds) (held : Measured rest fits best) :
    ∃ best' looks', searchPrefix outside rest fits rounds looks low high best = some (best', looks') ∧
      Measured rest fits best' := by
  induction rounds generalizing looks low high best with
  | zero => omega
  | succ rounds ih =>
    rw [searchPrefix]
    by_cases done : high < low
    · rw [if_pos done]
      exact ⟨best, looks, rfl, held⟩
    · rw [if_neg done]
      by_cases stop : outside.cancelled looks = true
      · rw [if_pos stop]
        exact ⟨best, looks + 1, rfl, held⟩
      · rw [if_neg stop]
        by_cases fit : 0 < textUtf8Prefix rest (low + (high - low) / 2) ∧
            fits (textUtf8Prefix rest (low + (high - low) / 2)) = true
        · simp only [if_pos fit]
          exact ih (by omega) (by omega) (.inr ⟨fit.2, _, rfl⟩)
        · simp only [if_neg fit]
          exact ih some_ (by omega) held

structure Sound (measure : Bytes → Bytes → Nat → Nat) (context : Nat) (section_ : Accepted) : Prop where
  full : section_.bytes ≠ []
  cut : section_.bytes = section_.measured ∨
    section_.bytes <+: section_.measured ∧ section_.measured.length * 3 / 4 < section_.bytes.length ∧
      section_.bytes.getLast? = some 0x0a
  within : measure section_.label section_.measured section_.outputTokens ≤ section_.limit
  limit : section_.limit ≤ context - section_.outputTokens - 384
  notes : usable section_.reply = some section_.visible

def notesOf : Nat → List Accepted → Bytes
  | _, [] => []
  | number, section_ :: sections => heading number ++ section_.visible ++ [0x0a] ++ notesOf (number + 1) sections

theorem notes_of_append (number : Nat) (sections : List Accepted) (section_ : Accepted) :
    notesOf number (sections ++ [section_]) =
      notesOf number sections ++ heading (number + sections.length) ++ section_.visible ++ [0x0a] := by
  induction sections generalizing number with
  | nil => simp [notesOf]
  | cons first sections ih =>
    simp only [List.cons_append, notesOf, ih, List.length_cons, List.append_assoc]
    rw [Nat.add_right_comm, Nat.add_assoc]

structure Reviewed (measure : Bytes → Bytes → Nat → Nat) (context : Nat) (source : Bytes) (offset : Nat)
    (review : Review) : Prop where
  inside : offset ≤ source.length
  join : (review.accepted.map Accepted.bytes).flatten = source.take offset
  sound : ∀ section_ ∈ review.accepted, Sound measure context section_
  clean : Clean source offset ∧ (Valid source → ∀ section_ ∈ review.accepted, Valid section_.bytes)
  notes : review.notes = notesOf 1 review.accepted

theorem reviewed_congr {review' : Review}
    (reviewed : Reviewed measure context source offset review) (accepted : review'.accepted = review.accepted)
    (notes : review'.notes = review.notes) : Reviewed measure context source offset review' := by
  obtain ⟨inside, join, sound, clean, text⟩ := reviewed
  rw [← accepted] at join sound clean text
  exact ⟨inside, join, sound, clean, notes.trans text⟩

theorem adjusted_keeps (reply : Reply) (attempt : Nat) (review : Review) :
    (adjusted reply attempt review).accepted = review.accepted ∧ (adjusted reply attempt review).notes = review.notes := by
  unfold adjusted
  split_ifs <;> exact ⟨rfl, rfl⟩

theorem review_limit_le (context : Nat) (review : Review) : reviewLimit context review ≤ context - review.outputTokens - 384 := by
  unfold reviewLimit
  split_ifs <;> omega

theorem section_sound {label rest : Bytes} {cut limit output : Nat} {reply : Option Jval} {visible : Bytes}
    (some_ : 0 < best) (inside : best ≤ rest.length) (back : CutBack rest best cut)
    (fits : measure label (rest.take best) output ≤ limit) (limited : limit ≤ context - output - 384)
    (used : usable reply = some visible) :
    Sound measure context
      { label := label, measured := rest.take best, bytes := rest.take cut, limit := limit, outputTokens := output,
        reply := reply, visible := visible } := by
  obtain ⟨positive, within⟩ := cut_back_bounds back some_
  have size : (rest.take cut).length = cut := by
    rw [List.length_take]
    omega
  refine ⟨?_, ?_, fits, limited, used⟩
  · exact List.ne_nil_of_length_pos (by rw [size]; exact positive)
  · rcases back with rfl | ⟨low, high, line⟩
    · exact .inl rfl
    · refine .inr ⟨?_, ?_, ?_⟩
      · exact List.take_prefix_take_left high
      · dsimp only
        rw [size, List.length_take]
        omega
      · dsimp only
        have there : cut - 1 < rest.length := by omega
        rw [List.getLast?_eq_getElem?, size, List.getElem?_take_of_lt (by omega), List.getElem?_eq_getElem there, ← line,
          List.getD_eq_getElem?_getD, List.getElem?_eq_getElem there, Option.getD_some]

theorem reviewed_accept {cut : Nat} {section_ : Accepted}
    (reviewed : Reviewed measure context source offset review) (back : CutBack (source.drop offset) best cut)
    (inside : best ≤ (source.drop offset).length) (some_ : 0 < best) (clean : Clean (source.drop offset) best)
    (same : section_.bytes = (source.drop offset).take cut) (sound : Sound measure context section_) :
    Reviewed measure context source (offset + cut) (accept section_ review) := by
  obtain ⟨_, within⟩ := cut_back_bounds back some_
  have narrow := cut_back_clean back inside clean
  rw [List.length_drop] at inside
  refine ⟨by have := reviewed.inside; omega, ?_, ?_, ⟨?_, ?_⟩, ?_⟩
  · simp only [accept, List.map_append, List.flatten_append, List.map_cons, List.map_nil, List.flatten_cons,
      List.flatten_nil, List.append_nil]
    rw [reviewed.join, same, ← List.take_add]
  · intro other among
    rcases List.mem_append.mp among with old | new
    · exact reviewed.sound other old
    · cases List.mem_singleton.mp new
      exact sound
  · intro valid
    obtain ⟨before, after⟩ := reviewed.clean.1 valid
    obtain ⟨first, last⟩ := narrow after
    rw [List.drop_drop] at last
    rw [List.take_add]
    exact ⟨valid_append before first, last⟩
  · intro valid other among
    rcases List.mem_append.mp among with old | new
    · exact reviewed.clean.2 valid other old
    · cases List.mem_singleton.mp new
      rw [same]
      exact (narrow (reviewed.clean.1 valid).2).1
  · simp only [accept]
    rw [notes_of_append, reviewed.notes, Nat.add_comm 1]

def Attempted (measure : Bytes → Bytes → Nat → Nat) (context : Nat) (source : Bytes) (offset : Nat) :
    Option Nat × Review → Prop
  | (none, _) => True
  | (some cut, review) => 0 < cut ∧ Reviewed measure context source (offset + cut) review

theorem attempt_section_spec {label : Bytes} (more : offset < source.length)
    (tries : Nat) : ∀ (attempt : Nat) (review : Review), Reviewed measure context source offset review →
      ∃ answer, attemptSection outside measure context label (source.drop offset) tries attempt review = some answer ∧
        Attempted measure context source offset answer := by
  have some_ : 0 < (source.drop offset).length := by
    rw [List.length_drop]
    omega
  induction tries with
  | zero => exact fun _ review _ => ⟨_, rfl, trivial⟩
  | succ tries ih =>
    intro attempt review reviewed
    rw [attemptSection]
    by_cases stop : outside.cancelled review.looks = true
    · rw [if_pos stop]
      exact ⟨_, rfl, trivial⟩
    · rw [if_neg stop]
      have searched : ∃ best looks, searchPrefix outside (source.drop offset)
          (fun bytes => measure label ((source.drop offset).take bytes) review.outputTokens ≤ reviewLimit context review)
          (min (source.drop offset).length 50000 + 1) (review.looks + 1) 1 (min (source.drop offset).length 50000) 0 =
            some (best, looks) ∧ Measured (source.drop offset)
              (fun bytes => measure label ((source.drop offset).take bytes) review.outputTokens ≤ reviewLimit context review)
              best :=
        search_prefix_ends _ Nat.one_pos (by omega) (.inl rfl)
      obtain ⟨best, looks, found, measured⟩ := searched
      simp only [found]
      by_cases none_ : best = 0
      · rw [if_pos none_]
        exact ⟨_, rfl, trivial⟩
      · rw [if_neg none_]
        obtain ⟨fits, middle, same⟩ := measured.resolve_left none_
        rw [decide_eq_true_eq] at fits
        have positive : 0 < best := Nat.pos_of_ne_zero none_
        have inside : best ≤ (source.drop offset).length := same ▸ prefix_le _ _
        have clean : Clean (source.drop offset) best := same ▸ prefix_clean _ _
        have back := cut_back_spec (source.drop offset) best
        cases used : usable ((outside.reply review.asks).body.getD none) with
        | some visible =>
          refine ⟨_, rfl, (cut_back_bounds back positive).1, ?_⟩
          have asked : Reviewed measure context source offset { review with looks := looks, asks := review.asks + 1 } :=
            reviewed_congr reviewed rfl rfl
          refine reviewed_accept asked back inside positive clean rfl ?_
          exact section_sound positive inside back fits (review_limit_le context review) used
        | none =>
          obtain ⟨accepted, notes⟩ := adjusted_keeps (outside.reply review.asks) attempt
            { review with looks := looks, asks := review.asks + 1 }
          exact ih (attempt + 1) _ (reviewed_congr reviewed accepted notes)

def Finished (measure : Bytes → Bytes → Nat → Nat) (context : Nat) (source : Bytes) : Option Bytes × Review → Prop
  | (none, _) => True
  | (some notes, review) => notes = review.notes ∧ Reviewed measure context source source.length review

theorem review_loop_spec (rounds : Nat) :
    ∀ (offset : Nat) (review : Review), source.length < offset + rounds → Reviewed measure context source offset review →
      ∃ answer, reviewLoop outside measure context source rounds offset review = some answer ∧
        Finished measure context source answer := by
  induction rounds with
  | zero =>
    intro offset review enough reviewed
    have inside := reviewed.inside
    omega
  | succ rounds ih =>
    intro offset review enough reviewed
    rw [reviewLoop]
    by_cases done : source.length ≤ offset
    · rw [if_pos done]
      refine ⟨_, rfl, ?_⟩
      have whole : offset = source.length := Nat.le_antisymm reviewed.inside done
      unfold notesData
      split_ifs
      · trivial
      · exact ⟨rfl, whole ▸ reviewed⟩
    · rw [if_neg done]
      by_cases stop : outside.cancelled review.looks = true
      · rw [if_pos stop]
        exact ⟨_, rfl, trivial⟩
      · rw [if_neg stop]
        have looked : Reviewed measure context source offset { review with looks := review.looks + 1 } :=
          reviewed_congr reviewed rfl rfl
        have next : ∃ answer, attemptSection outside measure context (fileLabel source offset) (source.drop offset) 4 0
            { review with looks := review.looks + 1 } = some answer ∧ Attempted measure context source offset answer :=
          attempt_section_spec (Nat.lt_of_not_le done) 4 0 _ looked
        obtain ⟨⟨cut, review'⟩, answered, attempted⟩ := next
        rw [answered]
        cases cut with
        | none => exact ⟨_, rfl, trivial⟩
        | some cut =>
          obtain ⟨positive, reviewed'⟩ := attempted
          exact ih (offset + cut) review' (by omega) reviewed'

end Loops

theorem usable_text {tree : Option Jval} {visible : Bytes} (used : usable tree = some visible) :
    visible ≠ [] ∧ ¬utf8 "<think>" <:+: visible ∧ ¬utf8 "</think>" <:+: visible ∧ isTruncated tree = false := by
  unfold usable at used
  simp only at used
  split_ifs at used with holds
  cases used
  obtain ⟨full, thinks, thought, whole⟩ := holds
  have absent : ∀ needle : Bytes, find needle (visibleText (replyText tree)) = none →
      ¬needle <:+: visibleText (replyText tree) := by
    rintro needle missed ⟨before, after, same⟩
    refine find_none missed before.length ?_ ?_
    · rw [← same]
      simp
    · rw [← same, List.append_assoc, List.drop_left]
      exact List.prefix_append _ _
  exact ⟨full, absent _ thinks, absent _ thought, whole⟩

def sectionTokens (tokens : Bytes → Nat) (model question : Bytes) (label part : Bytes) (output : Nat) : Nat :=
  tokens (promptReviewRequest model question label part output)

-- Notes are returned only when the accepted sections partition all of the source. What a section was cut back from to a
-- line end measured within the limit; so does the section, when a shorter one never has more tokens.
theorem prompt_review_sections (outside : Outside) (tokens : Bytes → Nat) (model question source : Bytes) (budget : Budget)
    (looks asks : Nat) :
    ∃ answer review, promptReviewSections outside tokens model question source budget looks asks = some (answer, review) ∧
      ∀ notes, answer = some notes →
        (review.accepted.map Accepted.bytes).flatten = source ∧
          (∀ section_ ∈ review.accepted, Sound (sectionTokens tokens model question) budget.context section_ ∧
            section_.visible ≠ [] ∧ ¬utf8 "<think>" <:+: section_.visible ∧ ¬utf8 "</think>" <:+: section_.visible ∧
              isTruncated section_.reply = false) ∧
          ((∀ label part more output, part <+: more →
              sectionTokens tokens model question label part output ≤ sectionTokens tokens model question label more output) →
            ∀ section_ ∈ review.accepted,
              sectionTokens tokens model question section_.label section_.bytes section_.outputTokens ≤ section_.limit) ∧
          (Valid source → ∀ section_ ∈ review.accepted, Valid section_.bytes) ∧ notes = notesOf 1 review.accepted := by
  have start : Reviewed (sectionTokens tokens model question) budget.context source 0 (startReview budget looks asks) := by
    refine ⟨Nat.zero_le _, rfl, ?_, ⟨?_, ?_⟩, rfl⟩
    · intro section_ inside
      cases inside
    · exact fun valid => ⟨valid_nil, valid⟩
    · intro _ section_ inside
      cases inside
  have ends : ∃ answer, reviewLoop outside (sectionTokens tokens model question) budget.context source (source.length + 1) 0
      (startReview budget looks asks) = some answer ∧
        Finished (sectionTokens tokens model question) budget.context source answer :=
    review_loop_spec (source.length + 1) 0 _ (by omega) start
  obtain ⟨⟨answer, review⟩, ran, finished⟩ := ends
  refine ⟨answer, review, ran, ?_⟩
  rintro notes rfl
  obtain ⟨same, reviewed⟩ := finished
  refine ⟨by rw [reviewed.join, List.take_length], fun section_ inside => ?_, fun monotone section_ inside => ?_,
    reviewed.clean.2, same.trans reviewed.notes⟩
  · exact ⟨reviewed.sound section_ inside, usable_text (reviewed.sound section_ inside).notes⟩
  · have sound := reviewed.sound section_ inside
    have shorter : section_.bytes <+: section_.measured := sound.cut.elim (fun same => by rw [same]) And.left
    exact Nat.le_trans (monotone _ _ _ _ shorter) sound.within

theorem attempt_accepts {outside : Outside} {measure : Bytes → Bytes → Nat → Nat} {context tries attempt best looks high limit : Nat}
    {label rest visible : Bytes} {review : Review} (top : min rest.length 50000 = high) (limited : reviewLimit context review = limit)
    (go : outside.cancelled review.looks = false)
    (found : searchPrefix outside rest
      (fun bytes => measure label (rest.take bytes) review.outputTokens ≤ limit) (high + 1) (review.looks + 1) 1 high 0 =
        some (best, looks))
    (some_ : best ≠ 0) (used : usable ((outside.reply review.asks).body.getD none) = some visible) :
    attemptSection outside measure context label rest (tries + 1) attempt review =
      some (some (cutBack rest best), accept
        { label := label, measured := rest.take best, bytes := rest.take (cutBack rest best),
          limit := limit, outputTokens := review.outputTokens, reply := (outside.reply review.asks).body.getD none,
          visible := visible }
        { review with looks := looks, asks := review.asks + 1 }) := by
  rw [attemptSection, if_neg (by rw [go]; decide)]
  simp only [top, limited, found, if_neg some_, used]

theorem review_steps {outside : Outside} {measure : Bytes → Bytes → Nat → Nat} {context rounds offset cut : Nat}
    {source : Bytes} {review review' : Review} (more : offset < source.length) (go : outside.cancelled review.looks = false)
    (attempted : attemptSection outside measure context (fileLabel source offset) (source.drop offset) 4 0
      { review with looks := review.looks + 1 } = some (some cut, review')) :
    reviewLoop outside measure context source (rounds + 1) offset review =
      reviewLoop outside measure context source rounds (offset + cut) review' := by
  rw [reviewLoop, if_neg (Nat.not_le.mpr more), if_neg (by rw [go]; decide), attempted]

theorem quoted_eq (text : Bytes) : quoted text = 0x22 :: escaped text ++ [0x22] := by
  rw [quoted, text_json_string_eq, List.nil_append]
  rfl

theorem request_length (model question label part : Bytes) (output : Nat) :
    (promptReviewRequest model question label part output).length =
      (promptReviewRequest model question label [] output).length + (escaped (reviewInput question label part)).length -
        (escaped (reviewInput question label [])).length := by
  have size : ∀ part, (promptReviewRequest model question label part output).length =
      (requestFront model).length + ((escaped (reviewInput question label part)).length + 2) + (requestBack output).length := by
    intro part
    rw [promptReviewRequest, List.length_append, List.length_append, quoted_eq, List.length_append, List.length_cons,
      List.length_singleton]
  rw [size, size]
  generalize (requestFront model).length = front
  generalize (requestBack output).length = back
  omega

def oddTokens (request : Bytes) : Nat :=
  let base := (promptReviewRequest [] [] (utf8 "none") [] 384).length
  if request.length = base + 6 ∨ request.length = base + 8 then 1000000 else 0

def oddSource : Bytes := utf8 "aaaa\nbb"

def fineTree : Jval :=
  .obj [(utf8 "choices", .arr [.obj [(utf8 "message", .obj [(utf8 "content", .str (utf8 "fine"))])]])]

def fineOutside : Outside where
  cancelled _ := false
  reply _ := { body := some (some fineTree), late := false, later := false }

def oddLength (part : Bytes) : Nat :=
  (escaped (reviewInput [] (utf8 "none") part)).length - (escaped (reviewInput [] (utf8 "none") [])).length

theorem odd_tokens_eq (part : Bytes)
    (more : (escaped (reviewInput [] (utf8 "none") [])).length ≤ (escaped (reviewInput [] (utf8 "none") part)).length) :
    sectionTokens oddTokens [] [] (utf8 "none") part 384 = if oddLength part = 6 ∨ oddLength part = 8 then 1000000 else 0 := by
  have length := request_length [] [] (utf8 "none") part 384
  unfold sectionTokens oddTokens oddLength
  simp only
  generalize (promptReviewRequest [] [] (utf8 "none") part 384).length = whole at length ⊢
  generalize (promptReviewRequest [] [] (utf8 "none") [] 384).length = base at length ⊢
  split_ifs <;> omega

theorem odd_small : (∀ n < 8, (escaped (reviewInput [] (utf8 "none") [])).length ≤
        (escaped (reviewInput [] (utf8 "none") (oddSource.take n))).length ∧
      decide ((if oddLength (oddSource.take n) = 6 ∨ oddLength (oddSource.take n) = 8 then 1000000 else 0) ≤ 4096) =
        decide (n ≠ 5 ∧ n < 7)) ∧ (∀ n < 3, (escaped (reviewInput [] (utf8 "none") [])).length ≤
        (escaped (reviewInput [] (utf8 "none") ((oddSource.drop 5).take n))).length ∧
      decide ((if oddLength ((oddSource.drop 5).take n) = 6 ∨ oddLength ((oddSource.drop 5).take n) = 8 then 1000000 else 0) ≤
        4096) = true) ∧ usable (some fineTree) = some (utf8 "fine") ∧ oddSource.length = 7 := by
  decide +kernel

theorem odd_first (bytes : Nat) :
    decide (sectionTokens oddTokens [] [] (utf8 "none") (oddSource.take bytes) 384 ≤ 4096) = decide (bytes ≠ 5 ∧ bytes < 7) := by
  have small := odd_small.1
  by_cases whole : bytes < 7
  · obtain ⟨more, fits⟩ := small bytes (by omega)
    rw [odd_tokens_eq _ more, fits]
  · obtain ⟨more, fits⟩ := small 7 (by decide)
    have long := odd_small.2.2.2
    have same : oddSource.take bytes = oddSource.take 7 := by
      rw [List.take_of_length_le (by omega), List.take_of_length_le (by omega)]
    rw [same, odd_tokens_eq _ more, fits]
    simp [whole]

theorem odd_second (bytes : Nat) :
    decide (sectionTokens oddTokens [] [] (utf8 "none") ((oddSource.drop 5).take bytes) 384 ≤ 4096) = true := by
  have small := odd_small.2.1
  by_cases whole : bytes < 2
  · obtain ⟨more, fits⟩ := small bytes (by omega)
    rw [odd_tokens_eq _ more, fits]
  · obtain ⟨more, fits⟩ := small 2 (by decide)
    have long : (oddSource.drop 5).length = 2 := by rw [List.length_drop, odd_small.2.2.2]
    have same : (oddSource.drop 5).take bytes = (oddSource.drop 5).take 2 := by
      rw [List.take_of_length_le (by omega), List.take_of_length_le (by omega)]
    rw [same, odd_tokens_eq _ more, fits]

def oddBudget : Budget :=
  { context := 8192, answer := 2048, exact_ := true, promptLimit := 5888, failure := none }

def oddFirst : Accepted :=
  { label := utf8 "none", measured := oddSource.take 6, bytes := oddSource.take 5, limit := 4096, outputTokens := 384,
    reply := some fineTree, visible := utf8 "fine" }

def oddSecond : Accepted :=
  { label := utf8 "none", measured := oddSource.drop 5, bytes := oddSource.drop 5, limit := 4096, outputTokens := 384,
    reply := some fineTree, visible := utf8 "fine" }

theorem fine_usable : usable (some fineTree) = some (utf8 "fine") :=
  odd_small.2.2.1

def oddAfter : Review :=
  accept oddFirst { startReview oddBudget 0 0 with looks := 5, asks := 1 }

theorem odd_run : ∃ notes review, promptReviewSections fineOutside oddTokens [] [] oddSource oddBudget 0 0 = some (some notes, review) ∧
    review.accepted = [oddFirst, oddSecond] := by
  have label : ∀ offset < 6, fileLabel oddSource offset = utf8 "none" := by decide
  have first : searchPrefix fineOutside (oddSource.drop 0)
      (fun bytes => sectionTokens oddTokens [] [] (utf8 "none") ((oddSource.drop 0).take bytes) 384 ≤ 4096) 8 2 1 7 0 =
        some (6, 5) := by
    have same := funext odd_first
    rw [List.drop_zero]
    simp only [same]
    decide
  have second : searchPrefix fineOutside (oddSource.drop 5)
      (fun bytes => sectionTokens oddTokens [] [] (utf8 "none") ((oddSource.drop 5).take bytes) 384 ≤ 4096) 3 7 1 2 0 =
        some (2, 9) := by
    have same := funext odd_second
    simp only [same]
    decide
  have one := @attempt_accepts fineOutside (sectionTokens oddTokens [] []) 8192 3 0 6 5 7 4096 (utf8 "none") (oddSource.drop 0)
    (utf8 "fine") { startReview oddBudget 0 0 with looks := 1 } (by decide) (by decide) rfl first (by decide)
    fine_usable
  have two := @attempt_accepts fineOutside (sectionTokens oddTokens [] []) 8192 3 0 2 9 2 4096 (utf8 "none") (oddSource.drop 5)
    (utf8 "fine") { oddAfter with looks := oddAfter.looks + 1 } (by decide) (by decide)
    rfl second (by decide) fine_usable
  have cut : cutBack (oddSource.drop 0) 6 = 5 ∧ cutBack (oddSource.drop 5) 2 = 2 := by decide
  rw [cut.1] at one
  rw [cut.2] at two
  rw [← label 0 (by decide)] at one
  have one' : attemptSection fineOutside (sectionTokens oddTokens [] []) 8192 (fileLabel oddSource 0) (oddSource.drop 0) 4 0
      { startReview oddBudget 0 0 with looks := 1 } = some (some 5, oddAfter) := one
  rw [← label 5 (by decide)] at two
  have ran : promptReviewSections fineOutside oddTokens [] [] oddSource oddBudget 0 0 =
      reviewLoop fineOutside (sectionTokens oddTokens [] []) 8192 oddSource 8 0 (startReview oddBudget 0 0) := by
    rw [promptReviewSections, odd_small.2.2.2]
    rfl
  have step := @review_steps fineOutside (sectionTokens oddTokens [] []) 8192 7 0 5 oddSource (startReview oddBudget 0 0) oddAfter
    (by decide) rfl one'
  have step' := @review_steps fineOutside (sectionTokens oddTokens [] []) 8192 6 5 2 oddSource oddAfter _ (by decide) rfl two
  rw [ran, step, step', reviewLoop, if_pos (by decide)]
  exact ⟨_, _, rfl, rfl⟩

-- The cut at a line end is not measured again: for some counters a section that is reviewed exceeds the limit in force.
theorem section_over_limit : ¬∀ (outside : Outside) (tokens : Bytes → Nat) (model question source : Bytes) (budget : Budget)
    (looks asks : Nat) (notes : Bytes) (review : Review),
    promptReviewSections outside tokens model question source budget looks asks = some (some notes, review) →
      ∀ section_ ∈ review.accepted,
        sectionTokens tokens model question section_.label section_.bytes section_.outputTokens ≤ section_.limit := by
  intro within
  obtain ⟨notes, review, ran, accepted⟩ := odd_run
  have fits := within fineOutside oddTokens [] [] oddSource oddBudget 0 0 notes review ran oddFirst (by rw [accepted]; simp)
  have above := odd_first 5
  rw [decide_eq_true (p := sectionTokens oddTokens [] [] (utf8 "none") (oddSource.take 5) 384 ≤ 4096) fits] at above
  exact absurd above (by decide)

end SamosaChat.Prompt
