import SamosaChat.Prompt.Sections

set_option autoImplicit false

namespace SamosaChat.Prompt

open Utf8 Text

def firstWidth (rest : Bytes) : Nat :=
  ((decodeOne rest).map (·.2)).getD 0

theorem first_width_decoded {rest : Bytes} (valid : Valid rest) (some_ : rest ≠ []) :
    ∃ code, decodeOne rest = some (code, firstWidth rest) := by
  obtain ⟨code, width, decoded, _⟩ := valid_step valid some_
  have same : firstWidth rest = width := by
    rw [firstWidth, decoded]
    rfl
  exact ⟨code, same ▸ decoded⟩

theorem first_width_bounds {rest : Bytes} (valid : Valid rest) (some_ : rest ≠ []) :
    0 < firstWidth rest ∧ firstWidth rest ≤ rest.length ∧ firstWidth rest ≤ 4 := by
  obtain ⟨code, decoded⟩ := first_width_decoded valid some_
  obtain ⟨positive, inside⟩ := decode_one_width decoded
  obtain ⟨_, size, _⟩ := decode_one_starts decoded
  exact ⟨positive, inside, size ▸ sequence_short code⟩

theorem first_width_valid {rest : Bytes} (valid : Valid rest) (some_ : rest ≠ []) : Valid (rest.take (firstWidth rest)) := by
  obtain ⟨code, decoded⟩ := first_width_decoded valid some_
  obtain ⟨scalar, size, after, rfl⟩ := decode_one_starts decoded
  rw [size, List.take_left]
  exact valid_sequence scalar

theorem first_width_least {rest : Bytes} {n : Nat} (inside : n ≤ rest.length) (whole : Valid (rest.take n)) (some_ : 0 < n) :
    firstWidth rest ≤ n := by
  have full : rest.take n ≠ [] := by
    apply List.ne_nil_of_length_pos
    rw [List.length_take]
    omega
  obtain ⟨code, width, decoded, _⟩ := valid_step whole full
  obtain ⟨scalar, size, after, taken⟩ := decode_one_starts decoded
  have front : decodeOne rest = some (code, width) :=
    decode_one_iff.mpr ⟨scalar, size, (List.prefix_iff_eq_take.mpr (by rw [← taken]; simp)).trans (List.take_prefix n rest)⟩
  obtain ⟨_, within⟩ := decode_one_width decoded
  rw [firstWidth, front, Option.map_some, Option.getD_some]
  rw [List.length_take] at within
  omega

theorem back_up_reaches {text : Bytes} {n end_ : Nat} (plain : isTail (text.getD n 0) = false) (later : n ≤ end_) :
    n ≤ backUp text end_ := by
  induction end_ with
  | zero => exact later
  | succ end_ ih =>
    rw [backUp]
    split_ifs with tail
    · rw [tail_bits] at tail
      have other : n ≠ end_ + 1 := by
        rintro rfl
        cases plain.symm.trans tail
      exact ih (by omega)
    · exact later

theorem prefix_reaches {rest : Bytes} {n requested : Nat} (valid : Valid rest) (inside : n ≤ rest.length)
    (whole : Valid (rest.take n)) (later : n ≤ requested) : n ≤ textUtf8Prefix rest requested := by
  unfold textUtf8Prefix
  split_ifs with short
  · refine back_up_reaches ?_ later
    have less : n < rest.length := by omega
    rw [← List.take_append_drop n rest] at valid
    have plain := valid_head (valid_rest valid whole) rest[n] (by rw [List.head?_drop, List.getElem?_eq_getElem less]; rfl)
    rw [List.getD_eq_getElem?_getD, List.getElem?_eq_getElem less]
    exact plain
  · exact inside

theorem prefix_short {rest : Bytes} {requested : Nat} (valid : Valid rest) (less : requested < firstWidth rest) :
    textUtf8Prefix rest requested = 0 := by
  by_contra some_
  have first := first_width_least (prefix_le rest requested) (prefix_clean rest requested valid).1 (Nat.pos_of_ne_zero some_)
  have := prefix_within rest requested
  omega

theorem prefix_mono {rest : Bytes} {m n : Nat} (valid : Valid rest) (le : m ≤ n) : textUtf8Prefix rest m ≤ textUtf8Prefix rest n :=
  prefix_reaches valid (prefix_le rest m) (prefix_clean rest m valid).1 (Nat.le_trans (prefix_within rest m) le)

structure Longest (rest : Bytes) (window : Nat) (fits : Nat → Bool) (best : Nat) : Prop where
  some_ : 1 ≤ best
  inside : best ≤ window
  whole : Valid (rest.take best)
  fit : fits best = true
  longest : ∀ n ≤ window, Valid (rest.take n) → fits n = true → n ≤ best

def ProbeFits (rest : Bytes) (window : Nat) (fits : Nat → Bool) : Prop :=
  ∃ k, 1 ≤ k ∧ firstWidth rest ≤ (window + 1) / 2 ^ k ∧ fits (textUtf8Prefix rest ((window + 1) / 2 ^ k)) = true

theorem probe_fits_half {rest : Bytes} {high : Nat} {fits : Nat → Bool} (some_ : 0 < high)
    (missed : ¬(firstWidth rest ≤ (high + 1) / 2 ∧ fits (textUtf8Prefix rest ((high + 1) / 2)) = true)) :
    ProbeFits rest high fits ↔ ProbeFits rest ((high + 1) / 2 - 1) fits := by
  have halved (k : Nat) : (high + 1) / 2 ^ (k + 1) = (high + 1) / 2 / 2 ^ k := by
    rw [Nat.pow_succ', Nat.div_div_eq_div_mul]
  have back : (high + 1) / 2 - 1 + 1 = (high + 1) / 2 := Nat.sub_add_cancel (by omega)
  unfold ProbeFits
  rw [back]
  constructor
  · rintro ⟨k, positive, wide, fit⟩
    obtain ⟨k, rfl⟩ : ∃ j, k = j + 1 := ⟨k - 1, by omega⟩
    rw [halved] at wide fit
    cases k with
    | zero =>
      rw [Nat.pow_zero, Nat.div_one] at wide fit
      exact absurd ⟨wide, fit⟩ missed
    | succ k => exact ⟨k + 1, by omega, wide, fit⟩
  · rintro ⟨k, positive, wide, fit⟩
    exact ⟨k + 1, by omega, by rwa [halved], by rwa [halved]⟩

section Loops

variable {outside : Outside} {rest : Bytes} {fits : Nat → Bool} {window : Nat}

def Uncancelled (outside : Outside) (looks rounds : Nat) : Prop :=
  ∀ i < rounds, outside.cancelled (looks + i) = false

theorem uncancelled_now {looks rounds : Nat} (uncancelled : Uncancelled outside looks (rounds + 1)) :
    outside.cancelled looks = false :=
  uncancelled 0 (by omega)

theorem uncancelled_later {looks rounds : Nat} (uncancelled : Uncancelled outside looks (rounds + 1)) :
    Uncancelled outside (looks + 1) rounds := by
  intro i inside
  rw [Nat.add_right_comm, Nat.add_assoc]
  exact uncancelled (i + 1) (by omega)

theorem search_later (valid : Valid rest) (some_ : rest ≠ []) (inside : window ≤ rest.length)
    (falls : ∀ a b, a ≤ b → fits b = true → fits a = true) (rounds : Nat) {looks low high : Nat}
    (uncancelled : Uncancelled outside looks rounds) (enough : high + 1 - low < rounds) (within : high ≤ window)
    (order : low ≤ high + 1) (behind : firstWidth rest < low) (good : fits (textUtf8Prefix rest (low - 1)) = true)
    (bad : ∀ m, high < m → m ≤ window → fits (textUtf8Prefix rest m) = false) :
    ∃ best looks', searchPrefix outside rest fits rounds looks low high (textUtf8Prefix rest (low - 1)) = some (best, looks') ∧
      Longest rest window fits best := by
  induction rounds generalizing looks low high with
  | zero => omega
  | succ rounds ih =>
    obtain ⟨positive, _, _⟩ := first_width_bounds valid some_
    have reach (m : Nat) (le : firstWidth rest ≤ m) : firstWidth rest ≤ textUtf8Prefix rest m :=
      prefix_reaches valid (first_width_bounds valid some_).2.1 (first_width_valid valid some_) le
    rw [searchPrefix]
    by_cases done : high < low
    · rw [if_pos done]
      refine ⟨_, looks, rfl, ?_, ?_, (prefix_clean rest _ valid).1, good, fun n le whole fit => ?_⟩
      · have := reach (low - 1) (by omega)
        omega
      · have := prefix_within rest (low - 1)
        omega
      · refine prefix_reaches valid (by omega) whole ?_
        by_contra above
        have full := prefix_reaches valid (by omega) whole (Nat.le_refl n)
        have same : textUtf8Prefix rest n = n := Nat.le_antisymm (prefix_within rest n) full
        have not_ := bad n (by omega) le
        exact absurd fit (by rw [← same, not_]; decide)
    · rw [if_neg done, if_neg (by rw [uncancelled_now uncancelled]; decide)]
      dsimp only
      have first := reach (low + (high - low) / 2) (by omega)
      by_cases fit : fits (textUtf8Prefix rest (low + (high - low) / 2)) = true
      · rw [if_pos ⟨by omega, fit⟩]
        have higher : firstWidth rest < low + (high - low) / 2 + 1 := by omega
        exact ih (uncancelled_later uncancelled) (by omega) within (by omega) higher fit bad
      · rw [if_neg (fun both => fit both.2)]
        refine ih (uncancelled_later uncancelled) (by omega) (by omega) (by omega) behind good fun m above le => ?_
        by_contra good_
        rw [Bool.not_eq_false] at good_
        exact fit (falls _ _ (prefix_mono valid (by omega)) good_)

theorem search_first (valid : Valid rest) (some_ : rest ≠ []) (inside : window ≤ rest.length)
    (falls : ∀ a b, a ≤ b → fits b = true → fits a = true) (rounds : Nat) {looks high : Nat}
    (uncancelled : Uncancelled outside looks rounds) (enough : high < rounds) (within : high ≤ window)
    (bad : firstWidth rest ≤ high + 1 → ∀ m, high < m → m ≤ window → fits (textUtf8Prefix rest m) = false) :
    ∃ best looks', searchPrefix outside rest fits rounds looks 1 high 0 = some (best, looks') ∧
      (ProbeFits rest high fits → Longest rest window fits best) ∧ (¬ProbeFits rest high fits → best = 0) := by
  obtain ⟨positive, _, _⟩ := first_width_bounds valid some_
  induction rounds generalizing looks high with
  | zero => omega
  | succ rounds ih =>
    rw [searchPrefix]
    by_cases done : high < 1
    · rw [if_pos done]
      refine ⟨0, looks, rfl, ?_, fun _ => rfl⟩
      rintro ⟨k, later, wide, _⟩
      have less : high + 1 < 2 ^ k := by
        have := Nat.pow_le_pow_right (show 0 < 2 by omega) later
        omega
      rw [Nat.div_eq_of_lt less] at wide
      omega
    · rw [if_neg done, if_neg (by rw [uncancelled_now uncancelled]; decide)]
      dsimp only
      have half : 1 + (high - 1) / 2 = (high + 1) / 2 := by omega
      rw [half]
      by_cases hit : firstWidth rest ≤ (high + 1) / 2 ∧ fits (textUtf8Prefix rest ((high + 1) / 2)) = true
      · have reach := prefix_reaches valid (first_width_bounds valid some_).2.1 (first_width_valid valid some_) hit.1
        rw [if_pos ⟨by omega, hit.2⟩]
        have above : firstWidth rest < (high + 1) / 2 + 1 := by omega
        obtain ⟨best, looks', found, longest⟩ := search_later valid some_ inside falls rounds
          (uncancelled_later uncancelled) (by omega) within (by omega) above hit.2 (bad (by omega))
        refine ⟨best, looks', found, fun _ => longest, fun none_ => absurd ?_ none_⟩
        exact ⟨1, Nat.le_refl 1, hit⟩
      · have refused : ¬(0 < textUtf8Prefix rest ((high + 1) / 2) ∧
            fits (textUtf8Prefix rest ((high + 1) / 2)) = true) := by
          rintro ⟨full, fit⟩
          refine hit ⟨?_, fit⟩
          by_contra less
          rw [prefix_short valid (by omega)] at full
          omega
        rw [if_neg refused, probe_fits_half (by omega) hit]
        refine ih (uncancelled_later uncancelled) (by omega) (by omega) fun wide m above le => ?_
        by_contra good
        rw [Bool.not_eq_false] at good
        exact hit ⟨by omega, falls _ _ (prefix_mono valid (by omega)) good⟩

variable {measure : Bytes → Bytes → Nat → Nat} {context : Nat} {label : Bytes} {review : Review}

def reviewWindow (rest : Bytes) : Nat :=
  min rest.length 50000

def sectionFits (measure : Bytes → Bytes → Nat → Nat) (context : Nat) (label rest : Bytes) (review : Review)
    (bytes : Nat) : Bool :=
  measure label (rest.take bytes) review.outputTokens ≤ reviewLimit context review

structure SearchFinds (outside : Outside) (measure : Bytes → Bytes → Nat → Nat) (context : Nat) (label rest : Bytes)
    (review : Review) : Prop where
  found : ∃ best looks, searchPrefix outside rest (sectionFits measure context label rest review) (reviewWindow rest + 1)
    (review.looks + 1) 1 (reviewWindow rest) 0 = some (best, looks) ∧
      Longest rest (reviewWindow rest) (sectionFits measure context label rest review) best
  unreported : review.failure ≠ some .inputTooLarge → ∀ attempt outcome failed,
    attemptSection outside measure context label rest 1 attempt review = some (outcome, failed) →
      failed.failure ≠ some .inputTooLarge

theorem adjusted_failure (reply : Reply) (attempt : Nat) (review : Review) :
    (adjusted reply attempt review).failure = some (refused reply) := by
  unfold adjusted
  split_ifs <;> rfl

theorem refused_other (reply : Reply) : refused reply ≠ .inputTooLarge := by
  unfold refused
  split_ifs <;> decide

theorem attempt_unreported (fresh : review.failure ≠ some .inputTooLarge) {best looks : Nat}
    (found : searchPrefix outside rest (sectionFits measure context label rest review) (reviewWindow rest + 1)
      (review.looks + 1) 1 (reviewWindow rest) 0 = some (best, looks)) (some_ : best ≠ 0) {attempt : Nat}
    {outcome : Option Nat} {failed : Review}
    (ended : attemptSection outside measure context label rest 1 attempt review = some (outcome, failed)) :
    failed.failure ≠ some .inputTooLarge := by
  unfold sectionFits reviewWindow at found
  rw [attemptSection] at ended
  by_cases stop : outside.cancelled review.looks = true
  · rw [if_pos stop] at ended
    cases ended
    exact fresh
  · rw [if_neg stop] at ended
    dsimp only at ended
    rw [found] at ended
    dsimp only at ended
    rw [if_neg some_] at ended
    cases used : usable ((outside.reply review.asks).body.getD none) with
    | some visible =>
      rw [used] at ended
      cases ended
      exact fun failure => by cases failure
    | none =>
      rw [used] at ended
      dsimp only [attemptSection] at ended
      cases ended
      rw [adjusted_failure]
      exact fun same => refused_other _ (Option.some.inj same)

-- While nobody cancels, a section that could be reviewed is found if and only if one of the halved probes is good.
theorem section_search (valid : Valid rest) (some_ : rest ≠ []) (monotone : ∀ a b, a ≤ b →
      measure label (rest.take a) review.outputTokens ≤ measure label (rest.take b) review.outputTokens)
    (uncancelled : Uncancelled outside review.looks (reviewWindow rest + 2)) :
    (sectionFits measure context label rest review (firstWidth rest) = true →
      SearchFinds outside measure context label rest review) ↔
    (sectionFits measure context label rest review (firstWidth rest) = true →
      ProbeFits rest (reviewWindow rest) (sectionFits measure context label rest review)) := by
  have falls : ∀ a b, a ≤ b → sectionFits measure context label rest review b = true →
      sectionFits measure context label rest review a = true := by
    intro a b le fit
    have fit' := of_decide_eq_true fit
    exact decide_eq_true (Nat.le_trans (monotone a b le) fit')
  obtain ⟨best, looks, found, good, bad⟩ := search_first valid some_ (Nat.min_le_left rest.length 50000) falls
    (reviewWindow rest + 1) (uncancelled_later uncancelled) (Nat.lt_succ_self _) (Nat.le_refl (reviewWindow rest))
    fun _ m above le => absurd above (by unfold reviewWindow; omega)
  apply imp_congr_right
  intro first
  constructor
  · rintro ⟨⟨best', looks', found', longest⟩, _⟩
    by_contra none_
    cases found.symm.trans found'
    have := longest.some_
    have := bad none_
    omega
  · intro probe
    have longest := good probe
    have positive := longest.some_
    exact ⟨⟨best, looks, found, longest⟩, fun fresh _ _ _ ended => attempt_unreported fresh found (by omega) ended⟩

end Loops

def nobodyRemembers : Outside where
  cancelled := fun _ => false
  reply := fun _ => { body := none, late := false, later := false }

def firstReview : Review :=
  startReview { context := 4096, answer := 1024, exact_ := true, promptLimit := 2816, failure := none } 0 0

theorem section_search_plain :
    (sectionFits (fun _ part _ => part.length) 4096 [] (utf8 "ab") firstReview (firstWidth (utf8 "ab")) = true →
      SearchFinds nobodyRemembers (fun _ part _ => part.length) 4096 [] (utf8 "ab") firstReview) ↔
    (sectionFits (fun _ part _ => part.length) 4096 [] (utf8 "ab") firstReview (firstWidth (utf8 "ab")) = true →
      ProbeFits (utf8 "ab") (reviewWindow (utf8 "ab"))
        (sectionFits (fun _ part _ => part.length) 4096 [] (utf8 "ab") firstReview)) :=
  section_search ⟨[0x61, 0x62], by decide, by decide⟩ (by decide)
    (fun a b le => by
      rw [List.length_take, List.length_take]
      omega)
    (fun _ _ => rfl)

-- An accented letter alone: the only probe falls inside it.
theorem accent_refused :
    Valid [0xc3, 0xa9] ∧
      (∀ a b, a ≤ b → (List.take a ([0xc3, 0xa9] : Bytes)).length ≤ (List.take b ([0xc3, 0xa9] : Bytes)).length) ∧
      ¬(sectionFits (fun _ part _ => part.length) 4096 [] [0xc3, 0xa9] firstReview (firstWidth [0xc3, 0xa9]) = true →
        SearchFinds nobodyRemembers (fun _ part _ => part.length) 4096 [] [0xc3, 0xa9] firstReview) := by
  refine ⟨⟨[0xe9], by decide, by decide⟩, fun a b le => ?_, fun finds => ?_⟩
  · rw [List.length_take, List.length_take]
    omega
  · obtain ⟨best, looks, found, longest⟩ := (finds (by decide)).found
    have none_ : searchPrefix nobodyRemembers [0xc3, 0xa9]
        (sectionFits (fun _ part _ => part.length) 4096 [] [0xc3, 0xa9] firstReview) (reviewWindow [0xc3, 0xa9] + 1)
        (firstReview.looks + 1) 1 (reviewWindow [0xc3, 0xa9]) 0 = some (0, 2) := by decide
    cases none_.symm.trans found
    exact absurd longest.some_ (by decide)

theorem ascii_probe_fits {rest : Bytes} {window : Nat} {fits : Nat → Bool} (valid : Valid rest) (inside : window ≤ rest.length)
    (some_ : 0 < window) (narrow : firstWidth rest = 1) (first : fits 1 = true) : ProbeFits rest window fits := by
  have room : 2 ^ Nat.log2 (window + 1) ≤ window + 1 := Nat.log2_self_le (by omega)
  have small : window + 1 < 2 * 2 ^ Nat.log2 (window + 1) := by
    rw [← Nat.pow_succ']
    exact Nat.lt_log2_self
  have one : (window + 1) / 2 ^ Nat.log2 (window + 1) = 1 :=
    Nat.div_eq_of_lt_le (by omega) (by omega)
  have whole : Valid (rest.take 1) := by
    rw [← narrow]
    exact first_width_valid valid (List.ne_nil_of_length_pos (by omega))
  have reached := prefix_reaches valid (by omega) whole (Nat.le_refl 1)
  refine ⟨Nat.log2 (window + 1), (Nat.le_log2 (by omega)).mpr (by omega), by omega, ?_⟩
  rw [one, Nat.le_antisymm (prefix_within rest 1) reached]
  exact first

theorem lone_character_missed {rest : Bytes} {fits : Nat → Bool} (wide : 2 ≤ firstWidth rest)
    (alone : rest.length = firstWidth rest) : ¬ProbeFits rest (reviewWindow rest) fits := by
  rintro ⟨k, later, reach, _⟩
  have window : reviewWindow rest ≤ firstWidth rest := by
    unfold reviewWindow
    omega
  have half : (reviewWindow rest + 1) / 2 ^ k ≤ (reviewWindow rest + 1) / 2 :=
    Nat.div_le_div_left (by simpa using Nat.pow_le_pow_right (show 0 < 2 by omega) later) (by omega)
  omega

end SamosaChat.Prompt
