import SamosaChat.Reader.Source

set_option autoImplicit false

namespace SamosaChat.Reader

open Text Binary64 Json

variable {n : Nat} {root : Jval}

section Reshaped

variable {source : Source}

variable {args : ReadArgs}

theorem lines_fields (sample : args.sample = none) (progress : Progress) :
    isTrue (jsonGet (fullLines args progress) (utf8 "ok")) = true ∧
      jsonGet (fullLines args progress) (utf8 "page_count") = some (count (progress.total.getD 0).toNat) ∧
      pagesOf (fullLines args progress) = progress.pages ∧
      isTrue (jsonGet (fullLines args progress) (utf8 "retryable")) = progress.retryable := by
  rw [pagesOf, fullLines, sample, get_record, get_record, get_record, get_record]
  cases progress.retryable with
  | false => exact ⟨rfl, rfl, rfl, rfl⟩
  | true => exact ⟨rfl, rfl, rfl, rfl⟩

theorem lines_no_sample (sample : args.sample = none) (progress : Progress) :
    ∀ key ∈ sampleKeys, jsonGet (fullLines args progress) (utf8 key) = none := by
  intro key member
  rw [fullLines, sample, get_record]
  simp only [sampleKeys, List.mem_cons, List.not_mem_nil, or_false] at member
  cases progress.retryable with
  | false => rcases member with same | same | same | same | same <;> rw [same] <;> rfl
  | true => rcases member with same | same | same | same | same <;> rw [same] <;> rfl

theorem tree_number (readable : source.readable n) (small : n ≤ 2 ^ 53) (i : Nat) : pageNumber i (source.tree n) = n := by
  rw [pageNumber, tree_index readable, count_num, Option.map_some, Option.getD_some, truncate_natural small]

theorem reshaped_tree (readable : source.readable n) (lines : Bool) (i : Nat) :
    reshapedPage lines i (source.tree n) = reshapedPage lines 0 (source.tree n) := by
  rw [reshapedPage, reshapedPage, tree_index readable]
  rfl

theorem selected_map {α : Type} {range : Range} {numbers : List Nat} {f : Nat → Jval → α} {g : Nat → α}
    (numbered : ∀ n ∈ numbers, ∀ i, pageNumber i (source.tree n) = n) (each : ∀ n ∈ numbers, ∀ i, f i (source.tree n) = g n) :
    ∀ {at_ : Nat → Nat},
      ((((numbers.map source.tree).mapIdx fun i page => (at_ i, page)).filter fun entry =>
        range.contains (pageNumber entry.1 entry.2)).map fun entry => f entry.1 entry.2) =
          (numbers.filter fun n : Nat => range.contains n).map g := by
  induction numbers with
  | nil => exact rfl
  | cons n numbers ih =>
    intro at_
    have rest := @ih (fun n inside => numbered n (List.mem_cons_of_mem _ inside))
      (fun n inside => each n (List.mem_cons_of_mem _ inside)) fun i => at_ (i + 1)
    rw [List.map_cons, List.mapIdx_cons, List.filter_cons, List.filter_cons, numbered n List.mem_cons_self]
    by_cases inside : range.contains n = true
    · rw [if_pos inside, if_pos inside, List.map_cons, List.map_cons, rest, each n List.mem_cons_self]
    · rw [if_neg inside, if_neg inside, rest]

def Source.shown (source : Source) (request : Request) (numbers : List Nat) : Jval :=
  record
    ([("ok", .bool true), ("page_count", integer source.length),
      ("pages", .arr (numbers.map fun n => reshapedPage request.lines 0 (source.tree n))),
      ("text", .str (documentText request.isPdf source.length (numbers.map fun n : Nat => sectionOf n (source.tree n)))),
      ("any_uncertain", .bool (numbers.any fun n => uncertain (source.tree n))),
      ("needs_review", .bool (numbers.any fun n => needsReview (source.tree n)))] ++
      if numbers.any fun n => incomplete (source.tree n) then [("retryable", Jval.bool true)] else [])

-- A stored result with some pages of the document, none of which is to be read again.
structure Holds (source : Source) (numbers : List Nat) (root : Jval) : Prop where
  ok : isTrue (jsonGet root (utf8 "ok")) = true
  counted : jsonGet root (utf8 "page_count") = some (count source.length)
  pages : pagesOf root = numbers.map source.tree
  settled : isTrue (jsonGet root (utf8 "retryable")) = false
  unsampled : ∀ key ∈ sampleKeys, jsonGet root (utf8 key) = none
  few : source.length ≤ 10000
  readable : ∀ n ∈ numbers, source.readable n
  unflagged : ∀ n ∈ numbers, source.flagged n = false
  inside : ∀ n ∈ numbers, n ≤ source.length

theorem reshape_held (request : Request) {numbers : List Nat} (held : Holds source numbers root) :
    reshapeDocReadResult request root = source.shown request (numbers.filter fun n : Nat => request.range.contains n) := by
  have few : source.length ≤ 2 ^ 53 := Nat.le_trans held.few (by decide)
  have numbered : ∀ n ∈ numbers, ∀ i, pageNumber i (source.tree n) = n :=
    fun n inside => tree_number (held.readable n inside) (Nat.le_trans (held.inside n inside) few)
  have total : totalPages root = source.length := by
    rw [totalPages, held.counted, count_num, Option.map_some, Option.getD_some, truncate_natural few]
  have chosen : ∀ {α : Type} {f : Nat → Jval → α} {g : Nat → α}, (∀ n ∈ numbers, ∀ i, f i (source.tree n) = g n) →
      (selected request.range root).map (fun entry => f entry.1 entry.2) =
        (numbers.filter fun n : Nat => request.range.contains n).map g := by
    intro α f g each
    rw [selected, held.pages]
    exact selected_map numbered each
  have chosen_any : ∀ p : Jval → Bool, (selected request.range root).any (fun entry => p entry.2) =
      (numbers.filter fun n : Nat => request.range.contains n).any fun n => p (source.tree n) := by
    intro p
    have same := congrArg (fun list => List.any list id) (@chosen Bool (fun _ page => p page) _ fun n _ _ => rfl)
    rw [List.any_map, List.any_map] at same
    exact same
  have keys : sampleKeys.filterMap (fun key => (jsonGet root (utf8 key)).map fun value => (key, value)) = [] := by
    apply List.filterMap_eq_nil_iff.mpr
    intro key member
    rw [held.unsampled key member]
    rfl
  rw [reshapeDocReadResult, if_neg (by rw [held.ok]; exact Bool.noConfusion), Source.shown]
  dsimp only
  rw [total, keys, held.settled, List.append_nil, Bool.false_or, chosen_any, chosen_any, chosen_any,
    chosen fun n inside i => reshaped_tree (held.readable n inside) request.lines i,
    @chosen _ (fun i page => sectionOf (pageNumber i page) page) _ fun n inside i => by rw [numbered n inside i]]

theorem range_cut {range : PageRange} (there : args.range = some range) (isPdf : Bool) (inside : range.start ≤ n) :
    (List.range' 1 n).filter (fun k : Nat => (args.request isPdf).range.contains k) =
      (List.range' range.start (min range.count (n + 1 - range.start))).filter
        fun k : Nat => (args.request isPdf).range.contains k := by
  have starts := range.starts
  have contains_iff : ∀ k : Nat, (args.request isPdf).range.contains k = true ↔
      range.start ≤ k ∧ k < range.start + range.count := by
    intro k
    rw [ReadArgs.request, there]
    change (decide ((range.start : Int) ≤ k) && decide ((k : Int) - range.start < range.count)) = true ↔ _
    rw [Bool.and_eq_true, decide_eq_true_iff, decide_eq_true_iff]
    omega
  have parts : List.range' 1 n = List.range' 1 (range.start - 1) ++
      (List.range' range.start (min range.count (n + 1 - range.start)) ++
        List.range' (range.start + min range.count (n + 1 - range.start)) (n + 1 - range.start - range.count)) := by
    have joined := @List.range'_append_1 1 (range.start - 1)
      (min range.count (n + 1 - range.start) + (n + 1 - range.start - range.count))
    rw [Nat.add_sub_cancel' starts] at joined
    rw [List.range'_append_1, joined]
    congr 1
    omega
  have before : (List.range' 1 (range.start - 1)).filter (fun k : Nat => (args.request isPdf).range.contains k) = [] := by
    apply List.filter_eq_nil_iff.mpr
    intro k member
    rw [contains_iff]
    have bounds := List.mem_range'_1.mp member
    omega
  have after : (List.range' (range.start + min range.count (n + 1 - range.start)) (n + 1 - range.start - range.count)).filter
      (fun k : Nat => (args.request isPdf).range.contains k) = [] := by
    apply List.filter_eq_nil_iff.mpr
    intro k member
    rw [contains_iff]
    have bounds := List.mem_range'_1.mp member
    omega
  rw [parts, List.filter_append, List.filter_append, before, after, List.nil_append, List.append_nil]

end Reshaped

-- What a read makes of a document is the same each time, unless it is given up.
def Source.readBy (source : Source) (run : Run) : Prop :=
  ∀ args, extract args source.isPdf run = extract args source.isPdf source.run ∨
    ∃ response, extract args source.isPdf run = .error response

inductive Filled (source : Source) : Cache → Prop
  | stale {cache : Cache} (all : ∀ contract root, cache contract = some root → documentResultRetryable root = true) :
      Filled source cache
  | read {cache after : Cache} {args : ReadArgs} {progress : Bool} {run : Run} {response : Jval}
      (filled : Filled source cache) (by_ : source.readBy run)
      (done : docRead args source.isPdf progress cache run = .answered response after) : Filled source after

def Honest (source : Source) (cache : Cache) : Prop :=
  ∀ contract root, cache contract = some root → documentResultRetryable root = true ∨
    ∀ args : ReadArgs, args.contract = contract → extract args source.isPdf source.run = .ok root

section Entries

def Contract.target : Contract → Option Nat
  | .sample target => some target
  | _ => none

def Contract.range : Contract → Option PageRange
  | .pages range => some range
  | _ => none

theorem contract_target (args : ReadArgs) : args.contract.target = args.sample := by
  rw [ReadArgs.contract]
  cases args.sample with
  | some target => rfl
  | none =>
    cases args.range with
    | some range => rfl
    | none => rfl

theorem contract_range (args : ReadArgs) : args.contract.range = args.range := by
  rw [ReadArgs.contract]
  rcases args.exclusive with sample | range
  · rw [sample]
    cases args.range with
    | some range => rfl
    | none => rfl
  · rw [range]
    cases args.sample with
    | some target => rfl
    | none => rfl

variable {args : ReadArgs} {cache : Cache}

theorem read_batches_same {other : ReadArgs} (sample : args.sample = other.sample) (range : args.range = other.range)
    (run : Run) (left : Nat) :
    ∀ {b : Nat} {progress : Progress}, readBatches args run left b progress = readBatches other run left b progress := by
  induction left with
  | zero => exact rfl
  | succ left ih =>
    intro b progress
    have wants : wantsMore args progress = wantsMore other progress := by rw [wantsMore, wantsMore, sample]
    have size : batchCount args progress.nextStart = batchCount other progress.nextStart := by
      rw [batchCount, batchCount, sample, range]
    have last : ∀ progress, rangeDone args progress = rangeDone other progress := by
      intro progress
      rw [rangeDone, rangeDone, range]
    rw [readBatches, readBatches, wants, size]
    simp only [last, ih]

theorem extract_same {other : ReadArgs} (same : args.contract = other.contract) (isPdf : Bool) (run : Run) :
    extract args isPdf run = extract other isPdf run := by
  have sample : args.sample = other.sample := by rw [← contract_target, same, contract_target]
  have range : args.range = other.range := by rw [← contract_range, same, contract_range]
  have begun_ : begun args = begun other := by rw [begun, begun, range]
  have lines : fullLines args = fullLines other := by
    funext progress
    rw [fullLines, fullLines, sample]
  rw [extract, extract, begun_, lines, read_batches_same sample range]

theorem cold_after {isPdf : Bool} {after : Cache} {run : Run} {response : Jval}
    (done : coldRead args isPdf cache run = .answered response after) {contract : Contract} (found : after contract = some root) :
    cache contract = some root ∨ contract = args.contract ∧ extract args isPdf run = .ok root := by
  rw [coldRead] at done
  cases extracted : extract args isPdf run with
  | error failed =>
    rw [extracted] at done
    cases done
    exact .inl found
  | ok read =>
    rw [extracted] at done
    dsimp only at done
    have own : ∀ value, Function.update cache args.contract value contract = some root →
        cache contract = some root ∨ contract = args.contract ∧ value = some root := by
      intro value updated
      by_cases same : contract = args.contract
      · rw [same, Function.update_self] at updated
        exact .inr ⟨same, updated⟩
      · rw [Function.update_of_ne same] at updated
        exact .inl updated
    by_cases changed : run.unchanged = false
    · rw [if_pos changed] at done
      cases done
      exact .inl found
    rw [if_neg changed] at done
    by_cases before : run.cancelledBefore = true
    · rw [if_pos before] at done
      cases done
      exact .inl found
    rw [if_neg before] at done
    by_cases late : run.cancelledAfter = true
    · rw [if_pos late] at done
      injection done with _ stored
      rw [← stored] at found
      split_ifs at found
      · exact .inl ((own none found).resolve_right fun nothing => by cases nothing.2)
      · exact .inl found
    · rw [if_neg late] at done
      injection done with _ stored
      rw [← stored] at found
      split_ifs at found
      · exact (own (some read) found).imp_right fun there => ⟨there.1, congrArg Except.ok (Option.some.inj there.2)⟩
      · exact .inl found

theorem read_after {isPdf progress : Bool} {after : Cache} {run : Run} {response : Jval}
    (done : docRead args isPdf progress cache run = .answered response after) {contract : Contract}
    (found : after contract = some root) :
    cache contract = some root ∨ contract = args.contract ∧ extract args isPdf run = .ok root := by
  rw [docRead] at done
  cases looked : lookup args cache with
  | none =>
    rw [looked] at done
    exact cold_after done found
  | some cached =>
    rw [looked] at done
    dsimp only at done
    by_cases stale : documentResultRetryable cached = true
    · rw [if_pos stale] at done
      obtain ⟨preview, done⟩ := past_guard done fun same => by cases same
      exact cold_after done found
    · rw [if_neg stale] at done
      by_cases shown : run.shown = true
      · rw [if_pos shown] at done
        cases done
        exact .inl found
      · rw [if_neg shown] at done
        cases done
        exact .inl found

theorem filled_honest {source : Source} (filled : Filled source cache) : Honest source cache := by
  induction filled with
  | stale all => exact fun contract root found => .inl (all contract root found)
  | @read cache after args progress run response _ by_ done ih =>
    intro contract root found
    rcases read_after done found with kept | ⟨own, extracted⟩
    · exact ih contract root kept
    · right
      intro other same
      rw [extract_same (same.trans own)]
      rcases by_ args with agrees | ⟨response, failed⟩
      · rw [← agrees, extracted]
      · rw [failed] at extracted
        cases extracted

end Entries

def Outcome.response : Outcome → Option Jval
  | .answered response _ => some response
  | .nullParsed => none

def Outcome.cache (before : Cache) : Outcome → Cache
  | .answered _ after => after
  | .nullParsed => before

theorem filled_next {source : Source} {cache : Cache} {args : ReadArgs} {progress : Bool} {run : Run}
    (filled : Filled source cache) (by_ : source.readBy run) :
    Filled source ((docRead args source.isPdf progress cache run).cache cache) := by
  cases done : docRead args source.isPdf progress cache run with
  | answered response after => exact .read filled by_ done
  | nullParsed => exact filled

-- A sample that is shown page by page has no stale entry of its own. A range that is cut out of the whole document
-- begins in it, and the extractor refuses none of the calls for it.
structure Agrees (source : Source) (args : ReadArgs) (progress : Bool) (cache : Cache) : Prop where
  live : args.refresh = false → args.sample.isSome = true → progress = true →
    ∀ root, cache args.contract = some root → documentResultRetryable root = false
  covered : source.isPdf = true → args.refresh = false → cache args.contract = none →
    ∀ range, args.range = some range → (sharedFull cache).isSome = true → source.covers range

section Agreement

variable {source : Source} {args : ReadArgs} {cache : Cache}

def Source.fresh (source : Source) (args : ReadArgs) : Jval :=
  match extract args source.isPdf source.run with
  | .error response => response
  | .ok root => reshapeDocReadResult (args.request source.isPdf) root

theorem cold_response (args : ReadArgs) (cache : Cache) :
    (coldRead args source.isPdf cache source.run).response = some (source.fresh args) := by
  rw [coldRead, Source.fresh]
  cases extract args source.isPdf source.run with
  | error response => rfl
  | ok root => rfl

theorem empty_response (args : ReadArgs) (progress : Bool) :
    (docRead args source.isPdf progress noEntry source.run).response = some (source.fresh args) := by
  have nothing : lookup args noEntry = none := by
    rw [lookup]
    by_cases refresh : args.refresh = true
    · rw [if_pos refresh]
    · rw [if_neg refresh]
      exact ite_self none
  rw [docRead, nothing]
  exact cold_response args noEntry

theorem warm_response {root : Jval} (progress : Bool) (looked : lookup args cache = some root)
    (good : documentResultRetryable root = false) : (docRead args source.isPdf progress cache source.run).response =
      some (reshapeDocReadResult (args.request source.isPdf) root) := by
  rw [docRead, looked]
  dsimp only
  rw [if_neg (by rw [good]; exact Bool.false_ne_true)]
  rfl

theorem fresh_of_extract (extracted : extract args source.isPdf source.run = .ok root) :
    source.fresh args = reshapeDocReadResult (args.request source.isPdf) root := by
  rw [Source.fresh, extracted]

theorem less_natural (more : less zero (ofRatio false n 1) = true) : 0 < n := by
  rcases Nat.eq_zero_or_pos n with none_ | some_
  · rw [none_, of_ratio_natural (by decide)] at more
    rw [zero, less, signedUnits, signedUnits] at more
    simp only [Nat.zero_mul] at more
    cases more
  · exact some_

theorem lines_hold {lo len : Nat} {progress : Progress} (sample : args.sample = none)
    (reading : Reading source lo len progress) (some_ : 0 < len) (settled : progress.retryable = false) :
    Holds source (List.range' lo len) (fullLines args progress) := by
  obtain ⟨ok, counted, pages, retryable⟩ := lines_fields sample progress
  obtain ⟨total, few, _, most⟩ := reading.total.resolve_left fun nothing => Nat.ne_of_gt some_ nothing.2
  constructor
  case ok => exact ok
  case counted =>
    rw [counted, total]
    rfl
  case pages => rw [pages, reading.pages]
  case settled => rw [retryable, settled]
  case unsampled => exact lines_no_sample sample progress
  case few => exact few
  case readable => exact reading.readable
  case unflagged =>
    intro n member
    rw [reading.retryable] at settled
    exact (Bool.not_eq_true _).mp (List.any_eq_false.mp settled n member)
  case inside =>
    intro n member
    have bounds := List.mem_range'_1.mp member
    omega

theorem shared_entry (shared : sharedFull cache = some root) :
    cache .full = some root ∧ documentResultRetryable root = false ∧
      ∃ num pages, asNum (jsonGet root (utf8 "page_count")) = some num ∧ asArr (jsonGet root (utf8 "pages")) = some pages ∧
        less zero num = true ∧ num = ofRatio false pages.length 1 := by
  obtain ⟨there, valid⟩ := Option.filter_eq_some_iff.mp shared
  obtain ⟨good, valid⟩ := (Bool.and_eq_true _ _).mp valid
  refine ⟨there, (Bool.not_eq_true' _).mp good, ?_⟩
  cases counted : asNum (jsonGet root (utf8 "page_count")) with
  | none =>
    rw [counted] at valid
    cases valid
  | some num =>
    cases listed : asArr (jsonGet root (utf8 "pages")) with
    | none =>
      rw [counted, listed] at valid
      cases valid
    | some pages =>
      rw [counted, listed] at valid
      obtain ⟨valid, _⟩ := (Bool.and_eq_true _ _).mp valid
      obtain ⟨more, same⟩ := (Bool.and_eq_true _ _).mp valid
      exact ⟨num, pages, rfl, rfl, more, eq_of_beq same⟩

theorem shared_holds (pdf : source.isPdf = true) (honest : Honest source cache)
    (shared : sharedFull cache = some root) : Holds source (List.range' 1 source.length) root := by
  obtain ⟨there, good, num, pages, counted, listed, more, same⟩ := shared_entry shared
  have extracted := (honest .full root there).resolve_left (by rw [good]; exact Bool.false_ne_true) (fullArgs false false) rfl
  rw [extract, if_pos pdf] at extracted
  cases read : readBatches (fullArgs false false) source.run batchesLeft 0 (begun (fullArgs false false)) with
  | error response =>
    rw [read] at extracted
    cases extracted
  | ok progress =>
    rw [read] at extracted
    cases extracted
    obtain ⟨len, reading⟩ := read_forward batchesLeft (reading_begun (fullArgs false false)) read
    obtain ⟨_, counted', pages', retryable⟩ := lines_fields (rfl : (fullArgs false false).sample = none) progress
    have num_ : num = ofRatio false (progress.total.getD 0).toNat 1 := by
      rw [counted', count_num] at counted
      exact (Option.some.inj counted).symm
    have length : pages.length = len := by
      rw [pagesOf, listed, Option.getD_some, reading.pages] at pages'
      rw [pages', List.length_map, List.length_range']
    rw [length, num_] at same
    rw [num_] at more
    have settled : progress.retryable = false := by
      rw [documentResultRetryable, Bool.or_eq_false_iff, Bool.or_eq_false_iff] at good
      rw [← retryable]
      exact good.1.2
    rcases reading.total with ⟨none_, nothing⟩ | ⟨total, few, _, most⟩
    · rw [none_] at more
      exact absurd (less_natural more) (Nat.lt_irrefl 0)
    · rw [total, Option.getD_some, Int.toNat_natCast] at same more
      have whole : source.length = len := natural_injective (Nat.le_trans few (by decide)) (by omega) same
      rw [whole]
      have some_ := less_natural more
      exact lines_hold rfl reading (by omega) settled

theorem fresh_batches (pdf : source.isPdf = true) : extract args source.isPdf source.run =
    (readBatches args source.run batchesLeft 0 (begun args)).map (fullLines args) := by
  rw [extract, if_pos pdf]

variable {range : PageRange}

theorem range_begun (there : args.range = some range) : Reading source range.start (5 * 0) (begun args) := by
  have reading := @reading_begun source args
  rw [there] at reading
  exact reading

theorem range_fresh (there : args.range = some range) (pdf : source.isPdf = true)
    (held : Holds source (List.range' 1 source.length) root) (covers : source.covers range) :
    source.fresh args = reshapeDocReadResult (args.request source.isPdf) root := by
  have sample : args.sample = none := args.exclusive.resolve_right (by rw [there]; exact Option.some_ne_none range)
  have starts := range.starts
  have some_ := range.some_
  have most := range.most
  have start := covers.1
  have readable : ∀ n, 1 ≤ n → n ≤ source.length → source.readable n :=
    fun n lower upper => held.readable n (List.mem_range'_1.mpr ⟨lower, by omega⟩)
  obtain ⟨progress, read, reading⟩ := range_good sample there held.few covers readable batchesLeft
    (range_begun there) some_ start (by rw [batchesLeft]; omega)
  have settled : progress.retryable = false := by
    rw [reading.retryable]
    apply List.any_eq_false.mpr
    intro n member
    rw [Bool.not_eq_true]
    have bounds := List.mem_range'_1.mp member
    exact held.unflagged n (List.mem_range'_1.mpr (by omega))
  have extracted : extract args source.isPdf source.run = .ok (fullLines args progress) := by
    rw [fresh_batches pdf, read]
    rfl
  rw [fresh_of_extract extracted, reshape_held _ held, reshape_held _ (lines_hold sample reading (by omega) settled),
    range_cut there _ start]

theorem read_refusal (left : Nat) {run : Run} :
    ∀ {b : Nat} {progress : Progress} {response : Jval}, readBatches args run left b progress = .error response →
      Refusal response := by
  induction left with
  | zero =>
    intro b progress response done
    cases done
  | succ left ih =>
    intro b progress response done
    rw [readBatches] at done
    split_ifs at done
    rcases bind_error done with batch | ⟨⟨total, reads⟩, _, done⟩
    · exact read_batch_refusal batch
    · dsimp only at done
      split_ifs at done with last
      · cases done
      · exact ih done

theorem range_refused (there : args.range = some range) (pdf : source.isPdf = true)
    (uncovered : ¬source.covers range) : Refusal (source.fresh args) := by
  have sample : args.sample = none := args.exclusive.resolve_right (by rw [there]; exact Option.some_ne_none range)
  have some_ := range.some_
  have most := range.most
  rw [Source.fresh, fresh_batches pdf]
  cases read : readBatches args source.run batchesLeft 0 (begun args) with
  | error response => exact read_refusal batchesLeft read
  | ok progress =>
    have each := range_forward sample there batchesLeft (range_begun there) (by rw [batchesLeft]; omega) read
    refine absurd ⟨?_, ?_⟩ uncovered
    · exact (each 0 (Nat.le_refl 0) some_ (.inl rfl)).1
    · exact fun j before inside => (each j (Nat.zero_le j) before (.inr inside)).2

end Agreement

theorem cached_read_agrees (source : Source) (cache : Cache) (filled : Filled source cache) (args : ReadArgs) (progress : Bool) :
    (∃ response, (docRead args source.isPdf progress cache source.run).response = some response ∧
      (docRead args source.isPdf progress noEntry source.run).response = some response) ↔
        Agrees source args progress cache := by
  have honest := filled_honest filled
  have cold : (∃ response, (coldRead args source.isPdf cache source.run).response = some response ∧
      (docRead args source.isPdf progress noEntry source.run).response = some response) :=
    ⟨_, cold_response args cache, empty_response args progress⟩
  by_cases refresh : args.refresh = true
  · have looked : lookup args cache = none := by rw [lookup, if_pos refresh]
    refine ⟨fun _ => ⟨fun fresh => ?_, fun _ fresh => ?_⟩, fun _ => ?_⟩
    · exact absurd (refresh.symm.trans fresh) Bool.noConfusion
    · exact absurd (refresh.symm.trans fresh) Bool.noConfusion
    · rw [docRead, looked]
      exact cold
  have own : lookup args cache = _ := if_neg refresh
  cases entry : cache args.contract with
  | some root =>
    rw [entry] at own
    cases stale : documentResultRetryable root with
    | true =>
      rw [docRead, own]
      dsimp only
      rw [if_pos stale]
      by_cases preview : (args.sample.isSome && progress) = true
      · rw [if_pos preview]
        obtain ⟨sample, shown⟩ := (Bool.and_eq_true _ _).mp preview
        constructor
        · rintro ⟨response, nothing, _⟩
          cases nothing
        · intro agrees
          have good := agrees.live ((Bool.not_eq_true _).mp refresh) sample shown root entry
          exact absurd (good.symm.trans stale) Bool.noConfusion
      · rw [if_neg preview]
        refine ⟨fun _ => ⟨fun _ sample shown => ?_, fun _ _ absent => ?_⟩, fun _ => cold⟩
        · exact absurd ((Bool.and_eq_true _ _).mpr ⟨sample, shown⟩) preview
        · rw [entry] at absent
          cases absent
    | false =>
      have extracted := (honest args.contract root entry).resolve_left (by rw [stale]; exact Bool.false_ne_true) args rfl
      refine ⟨fun _ => ⟨fun _ _ _ other there => ?_, fun _ _ absent => ?_⟩, fun _ => ?_⟩
      · rw [entry] at there
        cases there
        exact stale
      · rw [entry] at absent
        cases absent
      · refine ⟨_, warm_response progress own stale, ?_⟩
        rw [empty_response, fresh_of_extract extracted]
  | none =>
    rw [entry] at own
    have live : args.refresh = false → args.sample.isSome = true → progress = true →
        ∀ root, cache args.contract = some root → documentResultRetryable root = false := by
      intro _ _ _ root there
      rw [entry] at there
      cases there
    cases looked : lookup args cache with
    | none =>
      refine ⟨fun _ => ⟨live, fun _ _ _ range there shared => ?_⟩, fun _ => ?_⟩
      · have sample := args.exclusive.resolve_right (by rw [there]; exact Option.some_ne_none range)
        rw [looked, sample, there] at own
        have nothing : sharedFull cache = none := own.symm
        rw [nothing] at shared
        cases shared
      · rw [docRead, looked]
        exact cold
    | some root =>
      rw [looked] at own
      dsimp only at own
      split_ifs at own with ranged
      obtain ⟨range, there⟩ := Option.isSome_iff_exists.mp ((Bool.and_eq_true _ _).mp ranged).2
      obtain ⟨full, good, _⟩ := shared_entry own.symm
      have warm := @warm_response source args cache root progress looked good
      rw [warm, empty_response]
      have shared : (sharedFull cache).isSome = true := by rw [← own]; rfl
      by_cases pdf : source.isPdf = true
      · have held := shared_holds pdf honest own.symm
        constructor
        · rintro ⟨response, cut, fresh⟩
          refine ⟨live, fun _ _ _ other there' _ => ?_⟩
          rw [there] at there'
          cases there'
          by_contra uncovered
          have refused_ := range_refused there pdf uncovered
          rw [Option.some.inj (fresh.trans cut.symm)] at refused_
          exact refusal_not_ok refused_ (reshape_fields _ held.ok).2.2.2
        · intro agrees
          have covers := agrees.covered pdf ((Bool.not_eq_true _).mp refresh) entry range there shared
          exact ⟨_, rfl, congrArg some (range_fresh there pdf held covers)⟩
      · have whole := (honest .full root full).resolve_left (by rw [good]; exact Bool.false_ne_true)
          (fullArgs false false) rfl
        have extracted : extract args source.isPdf source.run = .ok root := by
          rw [extract, if_neg pdf] at whole ⊢
          exact whole
        refine ⟨fun _ => ⟨live, fun isPdf => absurd isPdf pdf⟩, fun _ => ?_⟩
        exact ⟨_, rfl, congrArg some (fresh_of_extract extracted)⟩

def onePage : Source where
  isPdf := true
  pages := [{ fields := [("text", literal "text")], render := .noTemp }]
  fails := fun _ _ => none
  image := .cancelled
  escalated := none

def wholeEntry : Cache :=
  (docRead (fullArgs false false) onePage.isPdf false noEntry onePage.run).cache noEntry

def pageArgs (start : Nat) (starts : 1 ≤ start) : ReadArgs where
  lines := false
  sample := none
  range := some { start := start, count := 1, starts := starts, some_ := by decide, most := by decide }
  refresh := false
  exclusive := .inl rfl

theorem whole_entry_filled : Filled onePage wholeEntry :=
  filled_next (.stale fun _ _ found => nomatch found) fun _ => .inl rfl

theorem cached_read_agrees_one_page :
    ∃ response, (docRead (pageArgs 1 (by decide)) onePage.isPdf false wholeEntry onePage.run).response = some response ∧
      (docRead (pageArgs 1 (by decide)) onePage.isPdf false noEntry onePage.run).response = some response := by
  refine (cached_read_agrees onePage wholeEntry whole_entry_filled (pageArgs 1 (by decide)) false).mpr ⟨?_, ?_⟩
  · intro _ sample
    cases sample
  · intro _ _ _ range there _
    cases there
    exact ⟨Nat.le_refl 1, fun _ _ _ => rfl⟩

-- Page 2 of it is out of range, and cut out of the cached text it is an empty success.
theorem past_end_differs : Filled onePage wholeEntry ∧
    ¬∃ response, (docRead (pageArgs 2 (by decide)) onePage.isPdf false wholeEntry onePage.run).response = some response ∧
      (docRead (pageArgs 2 (by decide)) onePage.isPdf false noEntry onePage.run).response = some response := by
  refine ⟨whole_entry_filled, ?_⟩
  rintro ⟨response, cut, fresh⟩
  have cut_ok : ((docRead (pageArgs 2 (by decide)) onePage.isPdf false wholeEntry onePage.run).response.map fun response =>
      isTrue (jsonGet response (utf8 "ok"))) = some true := by decide +kernel
  have fresh_ok : ((docRead (pageArgs 2 (by decide)) onePage.isPdf false noEntry onePage.run).response.map fun response =>
      isTrue (jsonGet response (utf8 "ok"))) = some false := by decide +kernel
  rw [cut, Option.map_some] at cut_ok
  rw [fresh, Option.map_some] at fresh_ok
  exact absurd (cut_ok.symm.trans fresh_ok) (by decide)

end SamosaChat.Reader
