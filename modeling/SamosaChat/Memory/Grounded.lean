import SamosaChat.Memory.Membership

set_option autoImplicit false

namespace SamosaChat.Memory

open Utf8 Text Json Function

structure Lists (reply : Option Jval) (count : Nat) (matched : List (Nat × Bytes)) (unsure : List Nat) : Prop where
  matches_ : ∃ items, listOf reply "match" = some items ∧
    items.map (fun item => (matchNumber count item, matchQuote item)) = matched.map fun entry => (some entry.1, some entry.2)
  uncertain : ∃ items, listOf reply "uncertain" = some items ∧
    items.map (fun item => sourceNumber count (some item)) = unsure.map some
  once : (matched.map Prod.fst ++ unsure).Nodup

def ValidReply (reply : Option Jval) (count : Nat) (subject : Bytes) : Prop :=
  count ≤ memorySourceLimit ∧ (∃ matched unsure, Lists reply count matched unsure) ∧ repeatsSubject reply subject = true

def SupportedMatch (root subject : Bytes) (matched : List (Nat × Bytes)) (unsure : List Nat) (i : Nat)
    (source : MemorySource) : Prop :=
  (matched.map Prod.fst ++ unsure).count i = 1 ∧
    ∃ quote, (i, quote) ∈ matched ∧
      (Quotes (memoryRelativePath root source) quote subject ∨
        (∃ preview, source.literal = some preview ∧ Quotes preview quote subject) ∨
        Names (memoryRelativePath root source) subject)

def Excluded (root subject : Bytes) (source : MemorySource) : Prop :=
  source.previewComplete = true ∧ ¬Names (memoryRelativePath root source) subject ∧
    ¬Names (source.preview.getD []) subject

theorem mark_some {verdict : Verdict} {numbers : List (Option Nat)} {marks marks' : Marks}
    (marked : mark verdict numbers marks = some marks') :
    ∃ indices : List Nat, numbers = indices.map some ∧ indices.Nodup ∧ (∀ i ∈ indices, marks.seen i = false) ∧
      (∀ i, marks'.seen i = true ↔ marks.seen i = true ∨ i ∈ indices) ∧
      ∀ i, marks'.membership i = if i ∈ indices then verdict else marks.membership i := by
  induction numbers generalizing marks with
  | nil =>
    cases marked
    exact ⟨[], rfl, by simp, by simp, by simp, by simp⟩
  | cons number numbers ih =>
    cases number with
    | none => cases marked
    | some index =>
      rw [mark] at marked
      split_ifs at marked with seen
      obtain ⟨indices, rfl, once, fresh, after, verdicts⟩ := ih marked
      have new : index ∉ indices := by
        intro inside
        have unseen : update marks.seen index true index = false := fresh index inside
        rw [update_self] at unseen
        cases unseen
      refine ⟨index :: indices, rfl, List.nodup_cons.mpr ⟨new, once⟩, ?_, fun i => ?_, fun i => ?_⟩
      · intro i inside
        rcases List.mem_cons.mp inside with rfl | later
        · simpa using seen
        · have unseen : update marks.seen index true i = false := fresh i later
          rwa [update_of_ne (by rintro rfl; exact new later)] at unseen
      · rw [after i]
        dsimp only
        by_cases same : i = index
        · subst same
          simp
        · rw [update_of_ne same]
          simp [same]
      · rw [verdicts i]
        dsimp only
        by_cases same : i = index
        · subst same
          simp [new]
        · rw [update_of_ne same]
          simp [same]

variable {count : Nat} {items : List Jval} {reply : Option Jval}

theorem match_quote_of_number {index : Nat} {item : Jval} (number : matchNumber count item = some index) :
    ∃ quote, matchQuote item = some quote ∧ quote ≠ [] := by
  obtain ⟨quote, found, _⟩ := Option.bind_eq_some_iff.mp number
  refine ⟨quote, found, ?_⟩
  unfold matchQuote at found
  split at found
  · split_ifs at found with bad
    cases found
    exact fun none_ => bad (.inl none_)
  · cases found

theorem matches_quoted {indices : List Nat} (numbers : items.map (matchNumber count) = indices.map some) :
    ∃ matched : List (Nat × Bytes), matched.map Prod.fst = indices ∧
      items.map (fun item => (matchNumber count item, matchQuote item)) =
        matched.map fun entry => (some entry.1, some entry.2) := by
  induction items generalizing indices with
  | nil =>
    cases indices with
    | nil => exact ⟨[], rfl, rfl⟩
    | cons index indices => cases numbers
  | cons item items ih =>
    cases indices with
    | nil => cases numbers
    | cons index indices =>
      obtain ⟨number, rest⟩ := List.cons.inj numbers
      obtain ⟨quote, found, _⟩ := match_quote_of_number number
      obtain ⟨matched, firsts, same⟩ := ih rest
      refine ⟨(index, quote) :: matched, ?_, ?_⟩
      · rw [List.map_cons, firsts]
      · rw [List.map_cons, List.map_cons, same, number, found]

variable {membership : Verdicts}

theorem membership_valid_lists {start : Verdicts} (valid : memoryMembershipValid reply count start = some membership) :
    count ≤ memorySourceLimit ∧ ∃ matched unsure, Lists reply count matched unsure ∧
      ∀ i, membership i = if i ∈ unsure then .uncertain else if i ∈ matched.map Prod.fst then .matched else start i := by
  unfold memoryMembershipValid at valid
  split_ifs at valid with many
  refine ⟨Nat.le_of_not_lt many, ?_⟩
  cases first : listOf reply "match" with
  | none =>
    rw [first] at valid
    cases valid
  | some items =>
    cases second : listOf reply "uncertain" with
    | none =>
      rw [first, second] at valid
      cases valid
    | some items' =>
      rw [first, second] at valid
      simp only at valid
      split_ifs at valid with long
      obtain ⟨marks, matched_, rest⟩ := Option.bind_eq_some_iff.mp valid
      obtain ⟨marks', unsure_, rfl⟩ := Option.map_eq_some_iff.mp rest
      obtain ⟨indices, numbers, once, _, seen, verdicts⟩ := mark_some matched_
      obtain ⟨unsure, numbers', once', fresh, _, verdicts'⟩ := mark_some unsure_
      obtain ⟨matched, firsts, quoted⟩ := matches_quoted numbers
      refine ⟨matched, unsure, ⟨⟨items, first, quoted⟩, ⟨items', second, numbers'⟩, ?_⟩, fun i => ?_⟩
      · rw [firsts]
        refine List.nodup_append.mpr ⟨once, once', fun i inside j among same => ?_⟩
        subst same
        have unseen := fresh i among
        rw [(seen i).mpr (.inr inside)] at unseen
        cases unseen
      · rw [verdicts' i, firsts, verdicts i]

def Proven (root subject : Bytes) (named : Bool) (source : MemorySource) (quote : Bytes) : Prop :=
  memoryProofGrounded root subject named source quote = true ∨
    (named && memoryNamedFilenameProof root subject source) = true

variable {root subject : Bytes} {named : Bool} {sources : List MemorySource}

variable {i : Nat}

theorem check_proof_matched {item : Jval} (matched : checkProof root subject named sources item membership i = .matched) :
    membership i = .matched ∧ ∀ quote source, matchNumber sources.length item = some i → matchQuote item = some quote →
      sources[i]? = some source → Proven root subject named source quote := by
  unfold checkProof at matched
  cases number : matchNumber sources.length item with
  | none =>
    rw [number] at matched
    exact ⟨matched, fun _ _ same => by cases same⟩
  | some index =>
    cases quoted : matchQuote item with
    | none =>
      rw [number, quoted] at matched
      exact ⟨matched, fun _ _ _ same => by cases same⟩
    | some quote =>
      rw [number, quoted] at matched
      simp only at matched
      cases there : sources[index]? with
      | none =>
        rw [there] at matched
        refine ⟨matched, fun quote' source same _ present => ?_⟩
        cases same
        cases there.symm.trans present
      | some source =>
        rw [there] at matched
        simp only at matched
        have proven : (memoryProofGrounded root subject named source quote = true ∨
            (named && memoryNamedFilenameProof root subject source) = true) ∨ index ≠ i := by
          by_contra neither
          obtain ⟨unproven, same⟩ := not_or.mp neither
          obtain ⟨bare, nameless⟩ := not_or.mp unproven
          rw [if_neg bare, if_neg nameless, not_not.mp same, update_self] at matched
          split_ifs at matched
        constructor
        · by_cases grounded : memoryProofGrounded root subject named source quote = true
          · rwa [if_pos grounded] at matched
          · rw [if_neg grounded] at matched
            by_cases name : (named && memoryNamedFilenameProof root subject source) = true
            · rwa [if_pos name] at matched
            · have other : i ≠ index := by
                rintro rfl
                exact proven.elim (fun found => found.elim grounded name) fun no => no rfl
              rwa [if_neg name, update_of_ne other] at matched
        · intro quote' source' same quoted' present
          cases same
          cases quoted'
          cases there.symm.trans present
          exact proven.resolve_right fun no => no rfl

theorem check_proofs_matched (matched : checkProofs root subject named sources items membership i = .matched) :
    membership i = .matched ∧ ∀ item ∈ items, ∀ quote source, matchNumber sources.length item = some i →
      matchQuote item = some quote → sources[i]? = some source → Proven root subject named source quote := by
  induction items generalizing membership with
  | nil => exact ⟨matched, by simp⟩
  | cons item items ih =>
    obtain ⟨before, later⟩ := ih matched
    obtain ⟨start, here⟩ := check_proof_matched before
    refine ⟨start, fun other inside => ?_⟩
    rcases List.mem_cons.mp inside with rfl | among
    · exact here
    · exact later other among

theorem sweep_matched (matched : sweep root subject named sources membership i = .matched) : membership i = .matched := by
  unfold sweep at matched
  cases there : sources[i]? with
  | none =>
    rw [there] at matched
    exact matched
  | some source =>
    rw [there] at matched
    simp only at matched
    split_ifs at matched
    exact matched

theorem sweep_unmatched {source : MemorySource} (there : sources[i]? = some source)
    (some_ : subject ≠ []) (unmatched : sweep root subject true sources membership i = .unmatched) :
    Excluded root subject source := by
  unfold sweep at unmatched
  rw [there] at unmatched
  simp only at unmatched
  split_ifs at unmatched with held
  rw [not_and, not_or] at held
  obtain ⟨complete, absent⟩ := held unmatched
  rw [Bool.true_and, Bool.or_eq_true, not_or, contains_identity_iff some_, contains_identity_iff some_] at absent
  exact ⟨by simpa using complete, absent⟩

theorem proven_supported {source : MemorySource} {quote : Bytes} (some_ : subject ≠ []) (some' : quote ≠ [])
    (proven : Proven root subject true source quote) : Quotes (memoryRelativePath root source) quote subject ∨
      (∃ preview, source.literal = some preview ∧ Quotes preview quote subject) ∨
      Names (memoryRelativePath root source) subject := by
  rcases proven with grounded | name
  · unfold memoryProofGrounded at grounded
    simp only [if_neg some'] at grounded
    split_ifs at grounded
    rw [Bool.not_true, Bool.false_or, Bool.or_eq_true] at grounded
    rcases grounded with path | preview
    · exact .inl ((quote_identity_iff some' some_).mp path)
    · cases literal : source.literal with
      | none =>
        rw [literal] at preview
        cases preview
      | some text =>
        rw [literal] at preview
        exact .inr (.inl ⟨text, rfl, (quote_identity_iff some' some_).mp preview⟩)
  · rw [Bool.true_and] at name
    exact .inr (.inr ((contains_identity_iff some_).mp name))

theorem requested_subject {question : Bytes}
    (requested : memoryRequestedSubject question reply = some subject) : subject ≠ [] ∧ Names question subject := by
  unfold memoryRequestedSubject at requested
  split at requested
  · split_ifs at requested with valid
    cases requested
    have some_ : subject ≠ [] := by
      rintro rfl
      exact absurd valid.1 (by simp)
    exact ⟨some_, (contains_identity_iff some_).mp valid.2.2⟩
  · cases requested

def Grounded (root subject : Bytes) (sources : List MemorySource) (matched : List (Nat × Bytes)) (unsure : List Nat)
    (membership : Verdicts) : Prop :=
  ∀ i source, sources[i]? = some source →
    (membership i = .matched → SupportedMatch root subject matched unsure i source) ∧
      (membership i = .unmatched → Excluded root subject source) ∧
      (¬SupportedMatch root subject matched unsure i source → ¬Excluded root subject source → membership i = .uncertain)

theorem verdicts_grounded {matched : List (Nat × Bytes)} {unsure : List Nat}
    (some_ : subject ≠ []) (lists : Lists reply sources.length matched unsure) (listed : listOf reply "match" = some items)
    (verdicts : ∀ i, membership i = if i ∈ unsure then .uncertain else if i ∈ matched.map Prod.fst then .matched else .unmatched) :
    Grounded root subject sources matched unsure
      (sweep root subject true sources (checkProofs root subject true sources items membership)) := by
  intro i source there
  have supported : sweep root subject true sources (checkProofs root subject true sources items membership) i = .matched →
      SupportedMatch root subject matched unsure i source := by
    intro verdict
    obtain ⟨start, proofs⟩ := check_proofs_matched (sweep_matched verdict)
    rw [verdicts i] at start
    split_ifs at start with doubt inside
    obtain ⟨items', same, entries⟩ := lists.matches_
    cases listed.symm.trans same
    obtain ⟨⟨index, quote⟩, among, rfl⟩ := List.mem_map.mp inside
    have entry : (some index, some quote) ∈ items.map fun item => (matchNumber sources.length item, matchQuote item) := by
      rw [entries]
      exact List.mem_map.mpr ⟨(index, quote), among, rfl⟩
    obtain ⟨item, item_, pair⟩ := List.mem_map.mp entry
    obtain ⟨number, quoted⟩ := Prod.mk.inj pair
    obtain ⟨quote', quoted', some'⟩ := match_quote_of_number number
    cases quoted.symm.trans quoted'
    refine ⟨List.count_eq_one_of_mem lists.once (List.mem_append_left _ inside), quote, among, ?_⟩
    exact proven_supported some_ some' (proofs item item_ quote source number quoted there)
  refine ⟨supported, sweep_unmatched there some_, fun unsupported present => ?_⟩
  cases verdict : sweep root subject true sources (checkProofs root subject true sources items membership) i with
  | matched => exact absurd (supported verdict) unsupported
  | unmatched => exact absurd (sweep_unmatched there some_ verdict) present
  | uncertain => rfl

-- For a named subject, whatever the models reply: verdicts come with a valid reply only, and are grounded.
theorem membership_grounded (root question : Bytes) (route : Jval) (sources : List MemorySource)
    (subjectReply reply : Option Jval) (semantic : Option Verdicts) (named : isNamed route = true) :
    (∀ subject membership,
        memoryMembership root question route sources subjectReply reply semantic = some (subject, membership) →
        Names question subject ∧ ValidReply reply sources.length subject ∧
          ∃ matched unsure, Lists reply sources.length matched unsure ∧
            Grounded root subject sources matched unsure membership) ∧
      ((∀ subject, ¬ValidReply reply sources.length subject) →
        memoryMembership root question route sources subjectReply reply semantic = none) := by
  have sound : ∀ subject membership,
      memoryMembership root question route sources subjectReply reply semantic = some (subject, membership) →
      Names question subject ∧ ValidReply reply sources.length subject ∧
        ∃ matched unsure, Lists reply sources.length matched unsure ∧
          Grounded root subject sources matched unsure membership := by
    intro subject membership answered
    unfold memoryMembership at answered
    simp only [named] at answered
    cases requested : memoryRequestedSubject question subjectReply with
    | none =>
      rw [requested] at answered
      cases answered
    | some subject' =>
      rw [requested] at answered
      simp only [Bool.true_eq_false, if_false] at answered
      cases valid : memoryMembershipValid reply sources.length fun _ => .unmatched with
      | none =>
        rw [valid] at answered
        cases answered
      | some verdicts =>
        rw [valid] at answered
        simp only at answered
        split_ifs at answered with repeats
        obtain ⟨rfl, rfl⟩ := Prod.mk.inj (Option.some.inj answered)
        obtain ⟨some_, names⟩ := requested_subject requested
        obtain ⟨few, matched, unsure, lists, shape⟩ := membership_valid_lists valid
        obtain ⟨items, listed, _⟩ := lists.matches_
        refine ⟨names, ⟨few, ⟨matched, unsure, lists⟩, repeats⟩, matched, unsure, lists, ?_⟩
        rw [listed]
        exact verdicts_grounded some_ lists listed shape
  refine ⟨sound, fun invalid => ?_⟩
  cases answered : memoryMembership root question route sources subjectReply reply semantic with
  | none => rfl
  | some pair => exact absurd (sound pair.1 pair.2 answered).2.1 (invalid pair.1)

def tripSource : MemorySource :=
  { path := utf8 "/d/Rhea trip", preview := some (utf8 "packing"), previewComplete := true, previewLiteral := true }

def tripSubject : Jval := .obj [(utf8 "subject", .str (utf8 "Rhea"))]

def tripReply : Jval :=
  .obj [(utf8 "subject", .str (utf8 "rhea")),
    (utf8 "match", .arr [.obj [(utf8 "number", .num (Binary64.integer false 0 Binary64.zero_small)),
      (utf8 "quote", .str (utf8 "Rhea trip"))]]),
    (utf8 "uncertain", .arr [])]

theorem membership_grounded_trip :
    ∃ matched unsure membership, membership 0 = .matched ∧
      Grounded (utf8 "/d") (utf8 "Rhea") [tripSource] matched unsure membership := by
  have verdict : (memoryMembership (utf8 "/d") (utf8 "what did Rhea do?") .null [tripSource] (some tripSubject)
      (some tripReply) none).map (fun pair => (pair.1, pair.2 0)) = some (utf8 "Rhea", .matched) := by
    decide +kernel
  obtain ⟨⟨subject, membership⟩, answered, pair⟩ := Option.map_eq_some_iff.mp verdict
  obtain ⟨rfl, first⟩ := Prod.mk.inj pair
  obtain ⟨_, _, matched, unsure, _, grounded⟩ :=
    (membership_grounded (utf8 "/d") (utf8 "what did Rhea do?") .null [tripSource] (some tripSubject) (some tripReply)
      none (by decide)).1 _ membership answered
  exact ⟨matched, unsure, membership, first, grounded⟩

end SamosaChat.Memory
