import SamosaChat.Reader.Full

set_option autoImplicit false

namespace SamosaChat.Reader

open Text Binary64 Json

structure SourcePage where
  fields : List (String × Jval)
  render : RenderRun

-- A document. The extractor refuses a call by its pages: one of them cannot be read, or together they are too large.
structure Source where
  isPdf : Bool
  pages : List SourcePage
  fails : Nat → Nat → Option String
  image : OcrRun
  escalated : Option (List Jval × OcrSummary)

def Source.length (source : Source) : Nat :=
  source.pages.length

def Source.page (source : Source) (n : Nat) : Option SourcePage :=
  source.pages[n - 1]?

def Source.object (source : Source) (n : Nat) : Jval :=
  record (("index", count n) :: ((source.page n).map SourcePage.fields).getD [])

def Source.pageRun (source : Source) (n : Nat) : PageRun where
  late := false
  shown := true
  render := ((source.page n).map SourcePage.render).getD .noTemp
  finished := true

def Source.reading (source : Source) (n : Nat) : Except Jval PageRead :=
  readPage n (source.object n) (source.pageRun n)

def Source.numbers (source : Source) (start size : Nat) : List Nat :=
  List.range' start (min size (source.length + 1 - start))

def Source.batch (source : Source) (start size : Nat) : Jval :=
  record
    [("ok", .bool true), ("page_count", count source.length), ("pages", .arr ((source.numbers start size).map source.object))]

-- samosa_extract --json-pages
def Source.reply (source : Source) (start size : Nat) : Reply :=
  if 10000 < source.length then .exited false (some (failure "page_count_limit"))
  else if source.length < start then .exited false (some (failure "page_out_of_range"))
  else
    match source.fails start size with
    | some error => .exited false (some (failure error))
    | none => .exited true (some (source.batch start size))

def Source.run (source : Source) : Run where
  batches := fun _ start size =>
    { cancelled := false
      shown := true
      reply := source.reply start size
      stopped := false
      pages := fun p => source.pageRun (start + p) }
  image := source.image
  escalated := source.escalated
  shown := true
  unchanged := true
  cancelledBefore := false
  written := true
  cancelledAfter := false

def treeOf : Except Jval PageRead → Jval
  | .ok read => read.tree
  | .error response => response

def flagOf : Except Jval PageRead → Bool
  | .ok read => read.retryable
  | .error _ => false

def Source.tree (source : Source) (n : Nat) : Jval :=
  treeOf (source.reading n)

def Source.flagged (source : Source) (n : Nat) : Bool :=
  flagOf (source.reading n)

def Source.readable (source : Source) (n : Nat) : Prop :=
  ∃ read, source.reading n = .ok read

section Pages

variable {source : Source}

variable {n : Nat} {read : PageRead}

theorem tree_of_reading (done : source.reading n = .ok read) : source.tree n = read.tree :=
  congrArg treeOf done

theorem flag_of_reading (done : source.reading n = .ok read) : source.flagged n = read.retryable :=
  congrArg flagOf done

theorem tree_index (readable : source.readable n) : jsonGet (source.tree n) (utf8 "index") = some (count n) := by
  obtain ⟨read, done⟩ := readable
  rw [tree_of_reading done]
  exact (read_page_carries done).1

structure ReadsOf (source : Source) (numbers : List Nat) (reads : List PageRead) : Prop where
  length : reads.length = numbers.length
  trees : reads.map PageRead.tree = numbers.map source.tree
  flags : reads.any PageRead.retryable = numbers.any source.flagged

theorem reads_of_cons {numbers : List Nat} {reads : List PageRead}
    (done : source.reading n = .ok read) (rest : ReadsOf source numbers reads) : ReadsOf source (n :: numbers) (read :: reads) where
  length := by rw [List.length_cons, List.length_cons, rest.length]
  trees := by rw [List.map_cons, List.map_cons, rest.trees, tree_of_reading done]
  flags := by rw [List.any_cons, List.any_cons, rest.flags, flag_of_reading done]

theorem source_pages_ok {start : Nat} (len : Nat) : ∀ {p : Nat} {reads : List PageRead},
      readPages (fun p => source.pageRun (start + p)) start p ((List.range' (start + p) len).map source.object) = .ok reads →
        (∀ n ∈ List.range' (start + p) len, source.readable n) ∧ ReadsOf source (List.range' (start + p) len) reads := by
  induction len with
  | zero =>
    intro p reads done
    cases done
    exact ⟨fun n inside => absurd inside List.not_mem_nil, rfl, rfl, rfl⟩
  | succ len ih =>
    intro p reads done
    rw [List.range'_succ, List.map_cons, readPages] at done
    obtain ⟨first, here, done⟩ := bind_ok done
    obtain ⟨rest, later, done⟩ := bind_ok done
    cases done
    obtain ⟨each, others⟩ := ih later
    rw [List.range'_succ]
    refine ⟨?_, reads_of_cons here others⟩
    intro n inside
    rcases List.mem_cons.mp inside with same | inside
    · rw [same]
      exact ⟨first, here⟩
    · exact each n inside

theorem source_pages_good {start : Nat} (len : Nat) : ∀ {p : Nat}, (∀ n ∈ List.range' (start + p) len, source.readable n) →
      ∃ reads, readPages (fun p => source.pageRun (start + p)) start p
        ((List.range' (start + p) len).map source.object) = .ok reads := by
  induction len with
  | zero => exact fun _ => ⟨[], rfl⟩
  | succ len ih =>
    intro p each
    rw [List.range'_succ] at each ⊢
    obtain ⟨first, here⟩ := each (start + p) List.mem_cons_self
    obtain ⟨rest, later⟩ := @ih (p + 1) fun n inside => each n (List.mem_cons_of_mem _ inside)
    rw [Source.reading] at here
    refine ⟨first :: rest, ?_⟩
    rw [List.map_cons, readPages, here, Nat.add_assoc]
    change (readPages _ start (p + 1) _ >>= _) = _
    rw [later]
    rfl

end Pages

section Calls

variable {source : Source}

variable {size start : Nat} {total : Option Int}

theorem reply_ok {json : Jval} (replied : source.reply start size = .exited true (some json)) :
    start ≤ source.length ∧ source.length ≤ 10000 ∧ source.fails start size = none ∧ json = source.batch start size := by
  rw [Source.reply] at replied
  split_ifs at replied with many past
  · injection replied with success
    cases success
  · injection replied with success
    cases success
  · cases fails : source.fails start size with
    | some error =>
      rw [fails] at replied
      injection replied with success
      cases success
    | none =>
      rw [fails] at replied
      injection replied with _ same
      exact ⟨Nat.le_of_not_lt past, Nat.le_of_not_lt many, rfl, (Option.some.inj same).symm⟩

theorem reply_good (inside : start ≤ source.length) (few : source.length ≤ 10000) (fine : source.fails start size = none) :
    source.reply start size = .exited true (some (source.batch start size)) := by
  rw [Source.reply, if_neg (Nat.not_lt_of_le few), if_neg (Nat.not_lt_of_le inside), fine]

theorem batch_is_ok (start size : Nat) : isTrue (jsonGet (source.batch start size) (utf8 "ok")) = true := by
  rw [Source.batch, get_record]
  rfl

theorem batch_pages (start size : Nat) : pagesOf (source.batch start size) = (source.numbers start size).map source.object := by
  rw [pagesOf, Source.batch, get_record]
  rfl

theorem batch_count (few : source.length ≤ 10000) :
    (jsonGet (source.batch start size) (utf8 "page_count")).map (fun value => truncate (numOf value)) =
      some (source.length : Int) := by
  rw [Source.batch, get_record]
  change some (truncate (numOf (count source.length))) = _
  rw [num_of_count, truncate_natural (Nat.le_trans few (by decide))]

theorem batch_declared (before : total.getD source.length = source.length)
    (few : source.length ≤ 10000) : declared total (source.batch start size) = source.length := by
  rw [declared, batch_count few]
  exact before

theorem batch_accepted (starts : 1 ≤ start) (some_ : 1 ≤ size) (inside : start ≤ source.length)
    (few : source.length ≤ 10000) : accepted source.length size (source.batch start size) = true := by
  have length : (pagesOf (source.batch start size)).length = min size (source.length + 1 - start) := by
    rw [batch_pages, List.length_map, Source.numbers, List.length_range']
  have listed : 1 ≤ min size (source.length + 1 - start) := by omega
  have total : (1 : Int) ≤ source.length ∧ (source.length : Int) ≤ 10000 := by omega
  rw [accepted, batch_count few, length, Option.all_some, beq_self_eq_true, Bool.and_true]
  simp only [Bool.and_eq_true, decide_eq_true_eq]
  exact ⟨⟨total, listed⟩, Nat.min_le_left _ _⟩

theorem batch_ok {b : Nat} {total' : Int} {reads : List PageRead} (before : total.getD source.length = source.length)
    (done : readBatch size start total (source.run.batches b start size) = .ok (total', reads)) :
    total' = source.length ∧ start ≤ source.length ∧ source.length ≤ 10000 ∧ source.fails start size = none ∧
      (∀ n ∈ source.numbers start size, source.readable n) ∧ ReadsOf source (source.numbers start size) reads := by
  obtain ⟨json, replied, counted, _, read⟩ := read_batch_ok done
  obtain ⟨inside, few, fine, same⟩ := reply_ok replied
  rw [same, batch_declared before few] at counted
  rw [same, batch_pages] at read
  have pages := @source_pages_ok source start _ 0 reads read
  exact ⟨counted.symm, inside, few, fine, pages⟩

theorem batch_good {b start size : Nat} {total : Option Int} (before : total.getD source.length = source.length)
    (starts : 1 ≤ start) (some_ : 1 ≤ size) (inside : start ≤ source.length) (few : source.length ≤ 10000)
    (fine : source.fails start size = none) (each : ∀ n ∈ source.numbers start size, source.readable n) :
    ∃ reads, readBatch size start total (source.run.batches b start size) = .ok (source.length, reads) ∧
      ReadsOf source (source.numbers start size) reads := by
  obtain ⟨reads, read⟩ := @source_pages_good source start _ 0 each
  obtain ⟨_, of_⟩ := @source_pages_ok source start _ 0 reads read
  have good : (some (source.batch start size)).filter (fun json => true && isTrue (jsonGet json (utf8 "ok"))) =
      some (source.batch start size) := Option.filter_eq_some_iff.mpr ⟨rfl, @batch_is_ok source start size⟩
  rw [Nat.add_zero] at read
  refine ⟨reads, ?_, of_⟩
  simp only [readBatch, Source.run, reply_good inside few fine, Bool.false_eq_true, Bool.true_eq_false, if_false, good,
    batch_declared before few, batch_accepted starts some_ inside few, batch_pages]
  rw [Source.numbers, read]
  rfl

end Calls

structure Reading (source : Source) (lo len : Nat) (progress : Progress) : Prop where
  next : progress.nextStart = lo + len
  pages : progress.pages = (List.range' lo len).map source.tree
  retryable : progress.retryable = (List.range' lo len).any source.flagged
  readable : ∀ n ∈ List.range' lo len, source.readable n
  total : progress.total = none ∧ len = 0 ∨
    progress.total = some (source.length : Int) ∧ source.length ≤ 10000 ∧ lo ≤ source.length ∧ lo + len ≤ source.length + 1

section Loop

variable {source : Source} {lo len : Nat} {progress : Progress}

theorem reading_total (reading : Reading source lo len progress) : progress.total.getD source.length = source.length := by
  rcases reading.total with ⟨none_, _⟩ | ⟨some_, _⟩
  · rw [none_]
    rfl
  · rw [some_]
    rfl

theorem reading_add {size : Nat} {reads : List PageRead} (reading : Reading source lo len progress)
    (inside : lo + len ≤ source.length) (few : source.length ≤ 10000)
    (each : ∀ n ∈ source.numbers (lo + len) size, source.readable n) (of_ : ReadsOf source (source.numbers (lo + len) size) reads) :
    Reading source lo (len + min size (source.length + 1 - (lo + len))) (progress.add source.length reads) := by
  rw [Source.numbers] at each of_
  constructor
  case next =>
    change progress.nextStart + reads.length = _
    rw [reading.next, of_.length, List.length_range', Nat.add_assoc]
  case pages =>
    change progress.pages ++ reads.map PageRead.tree = _
    rw [reading.pages, of_.trees, ← List.map_append, List.range'_append_1]
  case retryable =>
    change (progress.retryable || reads.any PageRead.retryable) = _
    rw [reading.retryable, of_.flags, ← List.any_append, List.range'_append_1]
  case readable =>
    intro n member
    rw [← List.range'_append_1] at member
    exact (List.mem_append.mp member).elim (reading.readable n) (each n)
  case total => exact .inr ⟨rfl, few, by omega, by omega⟩

variable {b : Nat}

theorem reading_batch {size : Nat} {total : Int} {reads : List PageRead} (reading : Reading source lo len progress)
    (done : readBatch size progress.nextStart progress.total (source.run.batches b progress.nextStart size) = .ok (total, reads)) :
    lo + len ≤ source.length ∧ source.fails (lo + len) size = none ∧
      Reading source lo (len + min size (source.length + 1 - (lo + len))) (progress.add total reads) := by
  rw [reading.next] at done
  obtain ⟨same, inside, few, fine, each, of_⟩ := batch_ok (reading_total reading) done
  rw [same]
  exact ⟨inside, fine, reading_add reading inside few each of_⟩

theorem reading_begun (args : ReadArgs) : Reading source ((args.range.map PageRange.start).getD 1) 0 (begun args) where
  next := rfl
  pages := rfl
  retryable := rfl
  readable := fun _ inside => absurd inside List.not_mem_nil
  total := .inl ⟨rfl, rfl⟩

theorem read_forward {args : ReadArgs} (left : Nat) :
    ∀ {b len : Nat} {progress progress' : Progress}, Reading source lo len progress →
      readBatches args source.run left b progress = .ok progress' → ∃ len', Reading source lo len' progress' := by
  induction left with
  | zero =>
    intro b len progress progress' reading done
    cases done
    exact ⟨len, reading⟩
  | succ left ih =>
    intro b len progress progress' reading done
    rw [readBatches] at done
    split_ifs at done with wants
    · cases done
      exact ⟨len, reading⟩
    · obtain ⟨⟨total, reads⟩, batch, done⟩ := bind_ok done
      obtain ⟨_, _, added⟩ := reading_batch reading batch
      dsimp only at done
      split_ifs at done with last
      · cases done
        exact ⟨_, added⟩
      · exact ih added done

-- The pages of a range, as far as the document goes, and the calls of the extractor that a fresh read of them makes.
def Source.covers (source : Source) (range : PageRange) : Prop :=
  range.start ≤ source.length ∧
    ∀ j, 5 * j < range.count → range.start + 5 * j ≤ source.length →
      source.fails (range.start + 5 * j) (min (range.count - 5 * j) 5) = none

variable {args : ReadArgs} {range : PageRange}

theorem batch_count_range (sample : args.sample = none) (there : args.range = some range) (j : Nat) :
    batchCount args (range.start + 5 * j) = min (range.count - 5 * j) 5 := by
  rw [batchCount, sample, there, if_neg (by decide)]
  dsimp only
  rw [Nat.add_sub_add_left]

theorem range_done_iff (there : args.range = some range) (progress : Progress) :
    rangeDone args progress = true ↔ range.start + range.count ≤ progress.nextStart := by
  rw [rangeDone, there, Option.any_some, decide_eq_true_iff]

theorem wants_more_range (sample : args.sample = none) (progress : Progress) :
    wantsMore args progress = progress.total.all fun total => (progress.nextStart : Int) ≤ total := by
  rw [wantsMore, sample, Option.all_none, Bool.and_true]

theorem read_range_batch {left j : Nat} {progress : Progress} (sample : args.sample = none)
    (there : args.range = some range) (reading : Reading source range.start (5 * j) progress)
    (more : wantsMore args progress = true) :
    readBatches args source.run (left + 1) b progress =
      (readBatch (min (range.count - 5 * j) 5) progress.nextStart progress.total
        (source.run.batches b progress.nextStart (min (range.count - 5 * j) 5)) >>= fun result =>
          if range.start + range.count ≤ (progress.add result.1 result.2).nextStart then
            .ok (progress.add result.1 result.2)
          else readBatches args source.run left (b + 1) (progress.add result.1 result.2)) := by
  have size : batchCount args progress.nextStart = min (range.count - 5 * j) 5 := by
    rw [reading.next, batch_count_range sample there]
  rw [readBatches, more, if_neg Bool.noConfusion, size]
  dsimp only
  congr 1
  funext result
  obtain ⟨total, reads⟩ := result
  dsimp only
  by_cases last : range.start + range.count ≤ (progress.add total reads).nextStart
  · rw [if_pos last, if_pos ((range_done_iff there _).mpr last)]
    rfl
  · rw [if_neg last, if_neg fun done => last ((range_done_iff there _).mp done)]

theorem range_forward (sample : args.sample = none) (there : args.range = some range) (left : Nat) :
    ∀ {b j : Nat} {progress progress' : Progress}, Reading source range.start (5 * j) progress →
      range.count ≤ 5 * (j + left) → readBatches args source.run left b progress = .ok progress' →
        ∀ i, j ≤ i → 5 * i < range.count → (i = 0 ∨ range.start + 5 * i ≤ source.length) →
          range.start + 5 * i ≤ source.length ∧ source.fails (range.start + 5 * i) (min (range.count - 5 * i) 5) = none := by
  induction left with
  | zero =>
    intro b j progress progress' reading enough done i later before
    exact absurd before (by omega)
  | succ left ih =>
    intro b j progress progress' reading enough done i later before goes
    cases more : wantsMore args progress with
    | false =>
      rw [wants_more_range sample, reading.next] at more
      rcases reading.total with ⟨none_, _⟩ | ⟨some_, _, starts, _⟩
      · rw [none_] at more
        cases more
      · rw [some_, Option.all_some, decide_eq_false_iff_not] at more
        omega
    | true =>
      rw [read_range_batch sample there reading more] at done
      obtain ⟨⟨total, reads⟩, batch, done⟩ := bind_ok done
      obtain ⟨inside, fine, added⟩ := reading_batch reading batch
      by_cases same : i = j
      · rw [same]
        exact ⟨inside, fine⟩
      · have whole : 5 * j + min (min (range.count - 5 * j) 5) (source.length + 1 - (range.start + 5 * j)) = 5 * (j + 1) := by
          omega
        rw [whole] at added
        dsimp only at done
        rw [if_neg (by rw [added.next]; omega)] at done
        exact ih added (by omega) done i (by omega) before goes

theorem batches_exhausted {left : Nat} {progress : Progress} (sample : args.sample = none)
    (known : progress.total = some (source.length : Int)) (past : source.length < progress.nextStart) :
    readBatches args source.run left b progress = .ok progress := by
  cases left with
  | zero => rfl
  | succ left =>
    have more : wantsMore args progress = false := by
      rw [wantsMore, sample, known, Option.all_some, Option.all_none, Bool.and_true, decide_eq_false_iff_not]
      omega
    rw [readBatches, if_pos more]

theorem range_good (sample : args.sample = none) (there : args.range = some range) (few : source.length ≤ 10000)
    (covers : source.covers range) (each : ∀ n, 1 ≤ n → n ≤ source.length → source.readable n) (left : Nat) :
    ∀ {b j : Nat} {progress : Progress}, Reading source range.start (5 * j) progress → 5 * j < range.count →
      range.start + 5 * j ≤ source.length → range.count ≤ 5 * (j + left) →
        ∃ progress', readBatches args source.run left b progress = .ok progress' ∧
          Reading source range.start (min range.count (source.length + 1 - range.start)) progress' := by
  induction left with
  | zero =>
    intro b j progress reading before inside enough
    exact absurd before (by omega)
  | succ left ih =>
    intro b j progress reading before inside enough
    have starts := range.starts
    have more : wantsMore args progress = true := by
      rw [wants_more_range sample, reading.next]
      rcases reading.total with ⟨none_, _⟩ | ⟨some_, _⟩
      · rw [none_]
        rfl
      · rw [some_, Option.all_some, decide_eq_true_iff]
        omega
    have readable : ∀ n ∈ source.numbers (range.start + 5 * j) (min (range.count - 5 * j) 5), source.readable n := by
      intro n member
      obtain ⟨lower, upper⟩ := List.mem_range'_1.mp member
      exact each n (by omega) (by omega)
    obtain ⟨reads, batch, of_⟩ := @batch_good source b _ _ _ (reading_total reading) (by omega) (by omega) inside few
      (covers.2 j before inside) readable
    have added := reading_add reading inside few readable of_
    have step : readBatches args source.run (left + 1) b progress =
        if range.start + range.count ≤ (progress.add source.length reads).nextStart then
          .ok (progress.add source.length reads)
        else readBatches args source.run left (b + 1) (progress.add source.length reads) := by
      rw [read_range_batch sample there reading more, reading.next, batch]
      rfl
    have known : (progress.add source.length reads).total = some (source.length : Int) := rfl
    rw [step]
    generalize progress.add source.length reads = next at added known ⊢
    by_cases last : range.start + range.count ≤ next.nextStart
    · rw [if_pos last]
      rw [added.next] at last
      have all : 5 * j + min (min (range.count - 5 * j) 5) (source.length + 1 - (range.start + 5 * j)) =
          min range.count (source.length + 1 - range.start) := by omega
      exact ⟨next, rfl, all ▸ added⟩
    · rw [if_neg last]
      rw [added.next] at last
      by_cases past : source.length < next.nextStart
      · rw [added.next] at past
        have all : 5 * j + min (min (range.count - 5 * j) 5) (source.length + 1 - (range.start + 5 * j)) =
            min range.count (source.length + 1 - range.start) := by omega
        rw [all] at added
        exact ⟨next, batches_exhausted sample known (by rw [added.next]; omega), added⟩
      · rw [added.next] at past
        have whole : 5 * j + min (min (range.count - 5 * j) 5) (source.length + 1 - (range.start + 5 * j)) = 5 * (j + 1) := by
          omega
        rw [whole] at added
        exact ih added (by omega) (by omega) (by omega)

end Loop

end SamosaChat.Reader
