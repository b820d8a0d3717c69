import SamosaChat.Reader.Complete

set_option autoImplicit false

namespace SamosaChat.Reader

open Utf8 Text Binary64 Json

def fullArgs (lines refresh : Bool) : ReadArgs where
  lines := lines
  sample := none
  range := none
  refresh := refresh
  exclusive := .inl rfl

def listed (run : Run) : Nat → Nat
  | 0 => 0
  | b + 1 => listed run b + (replyPages (run.batches b (1 + listed run b) 5).reply).length

def call (run : Run) (b : Nat) : BatchRun :=
  run.batches b (1 + listed run b) 5

def returned (run : Run) : Nat → List Jval
  | 0 => []
  | b + 1 => returned run b ++ replyPages (call run b).reply

-- page_count, by the first reply.
def declaredBy (run : Run) : Option Int :=
  match (call run 0).reply with
  | .exited _ (some json) => some (declared none json)
  | _ => none

def totalBefore (run : Run) (b : Nat) : Option Int :=
  if b = 0 then none else declaredBy run

def refused (run : Run) (b : Nat) : Prop :=
  ∃ response, readBatch 5 (1 + listed run b) (totalBefore run b) (call run b) = .error response

def reached (run : Run) (b : Nat) : Prop :=
  b = 0 ∨ ∃ total, declaredBy run = some total ∧ (listed run b : Int) < total

def Refusal (response : Jval) : Prop :=
  isTrue (jsonGet response (utf8 "ok")) = false

section Refusals

theorem refusal_record {fields : List (String × Jval)} (found : fields.lookup "ok" = some (.bool false)) :
    Refusal (record fields) := by
  rw [Refusal, get_record, found]
  rfl

theorem failure_refusal (error : String) : Refusal (failure error) :=
  refusal_record rfl

theorem failure_retryable_refusal (error : String) : Refusal (failureRetryable error) :=
  refusal_record rfl

theorem ocr_failure_refusal (status : OcrStatus) (reported : Option Bytes) : Refusal (documentOcrFailure status reported) :=
  refusal_record rfl

theorem reply_error_refusal (json : Option Jval) : Refusal (replyError json) :=
  refusal_record rfl

variable {p response : Jval} {page : Nat}

theorem fallback_refusal {other : Jval} (refusal : Refusal response)
    (done : fallback page p response = .error other) : Refusal other := by
  rw [fallback] at done
  split_ifs at done
  cases done
  exact refusal

theorem read_by_image_refusal {run : PageRun} (done : readByImage page p run = .error response) : Refusal response := by
  rw [readByImage] at done
  cases render : run.render with
  | noTemp =>
    rw [render] at done
    cases done
    exact failure_retryable_refusal _
  | unrendered timeout =>
    rw [render] at done
    exact fallback_refusal (failure_retryable_refusal _) done
  | rendered ocr =>
    rw [render] at done
    cases ocr with
    | cancelled =>
      cases done
      exact failure_refusal _
    | failed status reported => exact fallback_refusal (ocr_failure_refusal _ _) done
    | exited root =>
      dsimp only at done
      cases valid : root.bind ocrJsonValidate with
      | none =>
        rw [valid] at done
        exact fallback_refusal (failure_retryable_refusal _) done
      | some lines =>
        rw [valid] at done
        dsimp only at done
        split_ifs at done
        cases done
        exact failure_refusal _

theorem read_page_refusal {run : PageRun} (done : readPage page p run = .error response) : Refusal response := by
  rw [readPage] at done
  split_ifs at done
  · cases done
    exact failure_retryable_refusal _
  · cases done
    exact failure_retryable_refusal _
  · cases done
    exact failure_refusal _
  · exact read_by_image_refusal done

end Refusals

section Batches

variable {run : Run}

structure PagesRead (start : Nat) (kids : List Jval) (reads : List PageRead) : Prop where
  length : reads.length = kids.length
  indices : (reads.map PageRead.tree).map (fun page => jsonGet page (utf8 "index")) =
    (List.range kids.length).map fun k => some (count (start + k))
  texts : List.Forall₂ (fun page p => Carries p (structuredText page)) (reads.map PageRead.tree) kids

theorem bind_ok {ε α β : Type} {first : Except ε α} {next : α → Except ε β} {result : β}
    (done : (first >>= next) = .ok result) : ∃ value, first = .ok value ∧ next value = .ok result := by
  cases first with
  | error response => cases done
  | ok value => exact ⟨value, rfl, done⟩

theorem bind_error {ε α β : Type} {first : Except ε α} {next : α → Except ε β} {response : ε}
    (done : (first >>= next) = .error response) :
    first = .error response ∨ ∃ value, first = .ok value ∧ next value = .error response := by
  cases first with
  | error other =>
    cases done
    exact .inl rfl
  | ok value => exact .inr ⟨value, rfl, done⟩

variable {nextStart : Nat}

theorem read_pages_ok {pages : Nat → PageRun} {kids : List Jval} :
    ∀ {p : Nat} {reads : List PageRead}, readPages pages nextStart p kids = .ok reads →
      PagesRead (nextStart + p) kids reads := by
  induction kids with
  | nil =>
    intro p reads done
    cases done
    exact ⟨rfl, rfl, .nil⟩
  | cons kid kids ih =>
    intro p reads done
    obtain ⟨first, here, done⟩ := bind_ok done
    obtain ⟨rest, later, done⟩ := bind_ok done
    cases done
    obtain ⟨index, carries⟩ := read_page_carries here
    have others := ih later
    constructor
    case length => rw [List.length_cons, List.length_cons, others.length]
    case indices =>
      rw [List.map_cons, List.map_cons, others.indices, index, List.length_cons, List.range_succ_eq_map, List.map_cons,
        List.map_map]
      have shift : ∀ k : Nat, nextStart + (p + 1) + k = nextStart + p + (k + 1) := by omega
      simp only [shift]
      rfl
    case texts => exact .cons carries others.texts

theorem read_pages_refusal {pages : Nat → PageRun} {kids : List Jval} :
    ∀ {p : Nat} {response : Jval}, readPages pages nextStart p kids = .error response → Refusal response := by
  induction kids with
  | nil =>
    intro p response done
    cases done
  | cons kid kids ih =>
    intro p response done
    rcases bind_error done with first | ⟨_, _, done⟩
    · exact read_page_refusal first
    · rcases bind_error done with rest | ⟨_, _, done⟩
      · exact ih rest
      · cases done

theorem read_batch_ok {size : Nat} {total : Option Int} {batch : BatchRun} {total' : Int}
    {reads : List PageRead} (done : readBatch size nextStart total batch = .ok (total', reads)) :
    ∃ json, batch.reply = .exited true (some json) ∧ declared total json = total' ∧ accepted total' size json = true ∧
      readPages batch.pages nextStart 0 (pagesOf json) = .ok reads := by
  rw [readBatch] at done
  split_ifs at done
  cases reply : batch.reply with
  | silent timeout =>
    rw [reply] at done
    cases done
  | exited success json =>
    rw [reply] at done
    dsimp only at done
    cases good : json.filter fun json => success && isTrue (jsonGet json (utf8 "ok")) with
    | none =>
      rw [good] at done
      cases done
    | some value =>
      rw [good] at done
      dsimp only at done
      split_ifs at done with unaccepted
      obtain ⟨_, read, done⟩ := bind_ok done
      cases done
      obtain ⟨there, valid⟩ := Option.filter_eq_some_iff.mp good
      rw [there, ((Bool.and_eq_true _ _).mp valid).1]
      exact ⟨value, rfl, rfl, by rw [← Bool.not_eq_false]; exact unaccepted, read⟩

theorem read_batch_refusal {size : Nat} {total : Option Int} {batch : BatchRun} {response : Jval}
    (done : readBatch size nextStart total batch = .error response) : Refusal response := by
  rw [readBatch] at done
  split_ifs at done
  · cases done
    exact failure_refusal _
  · cases done
    exact failure_refusal _
  · cases done
    exact failure_refusal _
  · cases reply : batch.reply with
    | silent timeout =>
      rw [reply] at done
      cases done
      cases timeout with
      | true => exact failure_retryable_refusal _
      | false => exact failure_refusal _
    | exited success json =>
      rw [reply] at done
      dsimp only at done
      cases good : json.filter fun json => success && isTrue (jsonGet json (utf8 "ok")) with
      | none =>
        rw [good] at done
        cases done
        exact reply_error_refusal _
      | some value =>
        rw [good] at done
        dsimp only at done
        split_ifs at done
        · cases done
          exact failure_retryable_refusal _
        · rcases bind_error done with pages | ⟨_, _, done⟩
          · exact read_pages_refusal pages
          · cases done

structure At (run : Run) (m : Nat) (progress : Progress) : Prop where
  total : (m = 0 ∧ progress.total = none) ∨
    m ≠ 0 ∧ ∃ total, declaredBy run = some total ∧ progress.total = some total ∧ 1 ≤ total ∧ total ≤ 10000
  next : progress.nextStart = 1 + listed run m
  few : listed run m ≤ 5 * m
  indices : progress.pages.map (fun page => jsonGet page (utf8 "index")) =
    (List.range (listed run m)).map fun k => some (count (1 + k))
  texts : List.Forall₂ (fun page p => Carries p (structuredText page)) progress.pages (returned run m)

theorem at_begun (lines refresh : Bool) : At run 0 (begun (fullArgs lines refresh)) where
  total := .inl ⟨rfl, rfl⟩
  next := rfl
  few := Nat.le_refl 0
  indices := rfl
  texts := .nil

theorem at_before {m : Nat} {progress : Progress} (at_m : At run m progress) : progress.total = totalBefore run m := by
  rw [totalBefore]
  rcases at_m.total with ⟨first, none_⟩ | ⟨later, total, declared, there, _⟩
  · rw [if_pos first, none_]
  · rw [if_neg later, declared, there]

theorem returned_length (m : Nat) : (returned run m).length = listed run m := by
  induction m with
  | zero => rfl
  | succ m ih => rw [returned, List.length_append, ih, listed, call]

theorem at_add {m : Nat} {progress : Progress} (at_m : At run m progress) {total : Int} {reads : List PageRead}
    (done : readBatch 5 (1 + listed run m) (totalBefore run m) (call run m) = .ok (total, reads)) :
    At run (m + 1) (progress.add total reads) := by
  obtain ⟨json, reply, counted, accepted_, done⟩ := read_batch_ok done
  have read := read_pages_ok done
  rw [Nat.add_zero] at read
  have pages : replyPages (run.batches m (1 + listed run m) 5).reply = pagesOf json := by
    change (run.batches m (1 + listed run m) 5).reply = _ at reply
    rw [reply]
    rfl
  rw [accepted] at accepted_
  simp only [Bool.and_eq_true, decide_eq_true_eq] at accepted_
  obtain ⟨⟨⟨⟨some_, most⟩, _⟩, small⟩, _⟩ := accepted_
  have grown : listed run (m + 1) = listed run m + (pagesOf json).length := by rw [listed, pages]
  constructor
  case total =>
    right
    refine ⟨Nat.succ_ne_zero m, total, ?_, rfl, some_, most⟩
    rcases at_m.total with ⟨first, none_⟩ | ⟨later, other, declared_, _⟩
    · subst first
      rw [declaredBy, reply]
      rw [totalBefore, if_pos rfl] at counted
      exact congrArg some counted
    · rw [totalBefore, if_neg later, declared_] at counted
      rw [declared_]
      exact congrArg some counted
  case next =>
    change progress.nextStart + reads.length = _
    rw [at_m.next, read.length, grown, Nat.add_assoc]
  case few =>
    have before := at_m.few
    omega
  case indices =>
    change (progress.pages ++ reads.map PageRead.tree).map _ = _
    rw [List.map_append, at_m.indices, read.indices, grown, List.range_add, List.map_append, List.map_map]
    have shift : ∀ k : Nat, 1 + listed run m + k = 1 + (listed run m + k) := fun k => Nat.add_assoc _ _ _
    simp only [shift]
    rfl
  case texts =>
    change List.Forall₂ _ (progress.pages ++ reads.map PageRead.tree) (returned run m ++ replyPages (call run m).reply)
    rw [call, pages]
    exact List.rel_append at_m.texts read.texts

inductive Ends (run : Run) (left b : Nat) : Except Jval Progress → Prop
  | refused (b' : Nat) (response : Jval) (later : b ≤ b') (before : b' < b + left) (reached_ : reached run b')
      (refused_ : refused run b') (refusal : Refusal response) : Ends run left b (.error response)
  | read (m : Nat) (progress : Progress) (later : b ≤ m) (most : m ≤ b + left) (at_m : At run m progress)
      (each : ∀ j, b ≤ j → j < m → reached run j ∧ ¬refused run j)
      (stops : m = b + left ∨ ∃ total, progress.total = some total ∧ total ≤ listed run m) :
      Ends run left b (.ok progress)

theorem batches_end (lines refresh : Bool) (left : Nat) : ∀ {b : Nat} {progress : Progress}, At run b progress →
      Ends run left b (readBatches (fullArgs lines refresh) run left b progress) := by
  induction left with
  | zero =>
    intro b progress at_b
    exact .read b progress (Nat.le_refl b) (Nat.le_refl b) at_b (fun j later before => absurd before (by omega)) (.inl rfl)
  | succ left ih =>
    intro b progress at_b
    rw [readBatches]
    have wants : wantsMore (fullArgs lines refresh) progress =
        progress.total.all fun total => (progress.nextStart : Int) ≤ total := Bool.and_true _
    by_cases more : wantsMore (fullArgs lines refresh) progress = false
    · rw [if_pos more]
      refine .read b progress (Nat.le_refl b) (by omega) at_b (fun j later before => absurd before (by omega)) (.inr ?_)
      rw [wants, at_b.next] at more
      cases known : progress.total with
      | none =>
        rw [known] at more
        cases more
      | some total =>
        rw [known, Option.all_some, decide_eq_false_iff_not] at more
        exact ⟨total, rfl, by omega⟩
    · rw [if_neg more]
      have goes : reached run b := by
        rcases at_b.total with ⟨first, _⟩ | ⟨_, total, declared_, there, _⟩
        · exact .inl first
        · rw [wants, there, Option.all_some, decide_eq_false_iff_not, Decidable.not_not, at_b.next] at more
          exact .inr ⟨total, declared_, by omega⟩
      have size : ∀ nextStart, batchCount (fullArgs lines refresh) nextStart = 5 := fun _ => rfl
      simp only [at_b.next, at_before at_b, size]
      cases done : readBatch 5 (1 + listed run b) (totalBefore run b) (run.batches b (1 + listed run b) 5) with
      | error response =>
        have inside : b < b + (left + 1) := by omega
        exact .refused b response (Nat.le_refl b) inside goes ⟨response, done⟩ (read_batch_refusal done)
      | ok result =>
        obtain ⟨total, reads⟩ := result
        have added := at_add at_b done
        have rest := ih added
        have taken : ¬refused run b := by
          intro refused_
          obtain ⟨response, failed⟩ := refused_
          cases done.symm.trans failed
        change Ends run (left + 1) b (readBatches (fullArgs lines refresh) run left (b + 1) (progress.add total reads))
        generalize readBatches (fullArgs lines refresh) run left (b + 1) (progress.add total reads) = result at rest ⊢
        cases rest with
        | refused b' response later before reached_ refused_ refusal =>
          exact .refused b' response (by omega) (by omega) reached_ refused_ refusal
        | read m progress' later most at_m each stops =>
          refine .read m progress' (by omega) (by omega) at_m ?_ ?_
          · intro j later' before
            by_cases same : j = b
            · subst same
              exact ⟨goes, taken⟩
            · exact each j (by omega) before
          · rcases stops with last | stops
            · exact .inl (by omega)
            · exact .inr stops

end Batches

def Usable (args : ReadArgs) (cache : Cache) (root : Jval) : Prop :=
  lookup args cache = some root ∧ documentResultRetryable root = false

def Given (args : ReadArgs) (cache : Cache) (run : Run) (pages : List Jval) : Prop :=
  (∃ root, Usable args cache root ∧ WholeTree pages root) ∨
    (¬∃ root, Usable args cache root) ∧ ∃ m, pages = returned run m

structure SoundRead (args : ReadArgs) (cache : Cache) (run : Run) (response : Jval) (after : Cache) : Prop where
  complete : isTrue (jsonGet response (utf8 "ok")) = true →
    ∃ pages, Given args cache run pages ∧ Complete args.lines pages response
  -- What is new in the cache is the complete document that was answered.
  stored : ∀ contract root, after contract = some root → cache contract = some root ∨
    contract = args.contract ∧ documentResultRetryable root = false ∧
      isTrue (jsonGet response (utf8 "ok")) = true ∧ ∃ pages, Given args cache run pages ∧ WholeTree pages root

def Sound (args : ReadArgs) (cache : Cache) (run : Run) : Outcome → Prop
  | .answered response after => SoundRead args cache run response after
  | .nullParsed => False

-- A whole entry answers; or the read is given up; or its replies list the declared pages, in at most 2000 batches.
structure Settled (args : ReadArgs) (cache : Cache) (run : Run) : Prop where
  usable : ∀ root, Usable args cache root → run.shown = false ∨ ∃ pages, WholeTree pages root
  read : (¬∃ root, Usable args cache root) →
    (run.unchanged = false ∨ run.cancelledBefore = true ∨ run.cancelledAfter = true) ∨
      (∃ b, b < batchesLeft ∧ reached run b ∧ refused run b) ∨
        ∃ m, m ≤ batchesLeft ∧ declaredBy run = some (listed run m : Int)

section Reads

variable {run : Run} {cache : Cache} {lines refresh : Bool}

theorem refusal_not_ok {response : Jval} (refusal : Refusal response) : isTrue (jsonGet response (utf8 "ok")) ≠ true := by
  rw [refusal]
  exact Bool.false_ne_true

variable {args : ReadArgs} {m total : Nat} {progress : Progress} {root : Jval}

theorem sound_refusal {response : Jval} {after : Cache} (refusal : Refusal response)
    (kept : ∀ contract root, after contract = some root → cache contract = some root) :
    SoundRead args cache run response after where
  complete := fun ok => absurd ok (refusal_not_ok refusal)
  stored := fun contract root found => .inl (kept contract root found)

theorem listed_mono {k : Nat} (before : m ≤ k) : listed run m ≤ listed run k := by
  induction before with
  | refl => exact Nat.le_refl _
  | step _ ih => exact Nat.le_trans ih (Nat.le_add_right _ _)

theorem full_extract (run : Run) (lines refresh : Bool) :
    Ends run batchesLeft 0 (readBatches (fullArgs lines refresh) run batchesLeft 0 (begun (fullArgs lines refresh))) :=
  batches_end lines refresh batchesLeft (at_begun lines refresh)

theorem full_total (at_m : At run m progress)
    (stops : m = 0 + batchesLeft ∨ ∃ total, progress.total = some total ∧ total ≤ listed run m) :
    ∃ total : Nat, declaredBy run = some (total : Int) ∧ progress.total = some (total : Int) ∧
      (1 ≤ total ∧ total ≤ 10000) ∧ (m = batchesLeft ∨ total ≤ listed run m) := by
  rcases at_m.total with ⟨first, none_⟩ | ⟨_, total, declared_, there, some_, most⟩
  · rcases stops with last | ⟨total, there, _⟩
    · rw [first] at last
      cases last
    · rw [none_] at there
      cases there
  · obtain ⟨n, rfl⟩ := Int.eq_ofNat_of_zero_le (by omega : 0 ≤ total)
    refine ⟨n, declared_, there, ⟨by omega, by omega⟩, ?_⟩
    rcases stops with last | ⟨total, there', less⟩
    · exact .inl (by omega)
    · cases there.symm.trans there'
      exact .inr (by omega)

theorem full_lines_fields (there : progress.total = some (total : Int)) :
    isTrue (jsonGet (fullLines (fullArgs lines refresh) progress) (utf8 "ok")) = true ∧
      jsonGet (fullLines (fullArgs lines refresh) progress) (utf8 "page_count") = some (count total) ∧
        pagesOf (fullLines (fullArgs lines refresh) progress) = progress.pages := by
  rw [pagesOf, fullLines, get_record, get_record, get_record, there]
  exact ⟨rfl, rfl, rfl⟩

theorem full_lines_indices (at_m : At run m progress) (there : progress.total = some (total : Int)) :
    (pagesOf (fullLines (fullArgs lines refresh) progress)).map (fun page => jsonGet page (utf8 "index")) =
      (List.range (listed run m)).map fun k => some (count (k + 1)) := by
  rw [(full_lines_fields there).2.2, at_m.indices]
  simp only [Nat.add_comm]

theorem full_lines_whole (at_m : At run m progress)
    (there : progress.total = some (listed run m : Int)) (most : listed run m ≤ 10000) :
    WholeTree (returned run m) (fullLines (fullArgs lines refresh) progress) := by
  obtain ⟨ok, counted, pages⟩ := @full_lines_fields lines refresh _ _ there
  constructor
  case ok => exact ok
  case small => rw [returned_length]; exact most
  case count => rw [returned_length]; exact counted
  case indices =>
    rw [returned_length]
    exact full_lines_indices at_m there
  case texts =>
    rw [pages]
    exact at_m.texts

theorem usable_unique {other : Jval} (usable : Usable args cache root) (usable' : Usable args cache other) : other = root :=
  Option.some.inj (usable'.1.symm.trans usable.1)

theorem usable_ok (usable : Usable args cache root) : isTrue (jsonGet root (utf8 "ok")) = true := by
  have good := usable.2
  rw [documentResultRetryable, Bool.or_eq_false_iff, Bool.or_eq_false_iff, Bool.not_eq_false'] at good
  exact good.1.1

theorem doc_read_usable (progress : Bool) (usable : Usable (fullArgs lines refresh) cache root) :
    docRead (fullArgs lines refresh) true progress cache run =
      if run.shown then .answered (reshapeDocReadResult ((fullArgs lines refresh).request true) root) cache
      else .answered (failure "document_cancelled") cache := by
  rw [docRead, usable.1]
  dsimp only
  rw [if_neg (by rw [usable.2]; exact Bool.false_ne_true)]

theorem doc_read_cold (progress : Bool) (none_ : ¬∃ root, Usable (fullArgs lines refresh) cache root) :
    docRead (fullArgs lines refresh) true progress cache run = coldRead (fullArgs lines refresh) true cache run := by
  rw [docRead]
  cases found : lookup (fullArgs lines refresh) cache with
  | none => rfl
  | some root =>
    have stale : documentResultRetryable root = true := by
      rw [← Bool.not_eq_false]
      exact fun good => none_ ⟨root, found, good⟩
    dsimp only
    rw [if_pos stale]
    rfl

theorem sound_usable (progress : Bool) (usable : Usable (fullArgs lines refresh) cache root) :
    Sound (fullArgs lines refresh) cache run (docRead (fullArgs lines refresh) true progress cache run) ↔
      run.shown = false ∨ ∃ pages, WholeTree pages root := by
  rw [doc_read_usable progress usable]
  cases shown : run.shown with
  | false =>
    refine ⟨fun _ => .inl rfl, fun _ => ?_⟩
    exact sound_refusal (failure_refusal _) fun _ _ found => found
  | true =>
    have answered := (reshape_fields ((fullArgs lines refresh).request true) (usable_ok usable)).2.2.2
    constructor
    · intro sound
      obtain ⟨pages, given, _⟩ := sound.complete answered
      rcases given with ⟨other, usable', tree⟩ | ⟨none_, _⟩
      · rw [usable_unique usable usable'] at tree
        exact .inr ⟨pages, tree⟩
      · exact absurd ⟨root, usable⟩ none_
    · intro settled
      obtain ⟨pages, tree⟩ := settled.resolve_left fun cancelled => Bool.noConfusion cancelled
      constructor
      case complete => exact fun _ => ⟨pages, .inl ⟨root, usable, tree⟩, @whole_reshape ((fullArgs lines refresh).request true) rfl rfl _ _ tree⟩
      case stored => exact fun _ _ found => .inl found

theorem complete_listed (at_m : At run m progress) (few : m ≤ batchesLeft)
    (there : progress.total = some (total : Int)) (most : total ≤ 10000) {pages : List Jval} (complete : Complete lines pages
      (reshapeDocReadResult ((fullArgs lines refresh).request true) (fullLines (fullArgs lines refresh) progress))) :
    total = listed run m := by
  have bound : listed run m ≤ 10000 := Nat.le_trans at_m.few (Nat.mul_le_mul_left 5 few)
  obtain ⟨ok, counted, _⟩ := @full_lines_fields lines refresh _ _ there
  have indices := @full_lines_indices _ lines refresh _ _ _ at_m there
  have shown := pages_length (@reshaped_pages ((fullArgs lines refresh).request true) rfl _ _ bound ok indices).2
  have same := pages_length complete.indices
  rw [shown] at same
  have total_ : totalPages (fullLines (fullArgs lines refresh) progress) = total := by
    rw [totalPages, counted, count_num, Option.map_some, Option.getD_some, truncate_natural (Nat.le_trans most (by decide))]
  have declared_ := (reshape_fields ((fullArgs lines refresh).request true) ok).1
  rw [total_, integer_natural, complete.count] at declared_
  injection declared_ with declared_
  rw [← same] at declared_
  exact (natural_injective (Nat.le_trans bound (by decide)) (Nat.le_trans most (by decide))
    (Jval.num.inj declared_)).symm

theorem sound_cold (progress : Bool) (none_ : ¬∃ root, Usable (fullArgs lines refresh) cache root) :
    Sound (fullArgs lines refresh) cache run (docRead (fullArgs lines refresh) true progress cache run) ↔
      (run.unchanged = false ∨ run.cancelledBefore = true ∨ run.cancelledAfter = true) ∨
        (∃ b, b < batchesLeft ∧ reached run b ∧ refused run b) ∨
          ∃ m, m ≤ batchesLeft ∧ declaredBy run = some (listed run m : Int) := by
  rw [doc_read_cold progress none_, coldRead, extract, if_pos rfl]
  have ends := full_extract run lines refresh
  generalize readBatches (fullArgs lines refresh) run batchesLeft 0 (begun (fullArgs lines refresh)) = result at ends ⊢
  cases ends with
  | refused b response later before reached_ refused_ refusal =>
    refine ⟨fun _ => .inr (.inl ⟨b, by omega, reached_, refused_⟩), fun _ => ?_⟩
    exact sound_refusal refusal fun _ _ found => found
  | read m progress' later most at_m each stops =>
    obtain ⟨total, declared_, there, ⟨some_, small⟩, last⟩ := full_total at_m stops
    have few : m ≤ batchesLeft := by omega
    have bound : listed run m ≤ 10000 := Nat.le_trans at_m.few (Nat.mul_le_mul_left 5 few)
    change Sound _ _ _ (if run.unchanged = false then _ else _) ↔ _
    by_cases changed : run.unchanged = false
    · rw [if_pos changed]
      exact ⟨fun _ => .inl (.inl changed), fun _ => sound_refusal (failure_refusal _) fun _ _ found => found⟩
    rw [if_neg changed]
    by_cases before : run.cancelledBefore = true
    · rw [if_pos before]
      exact ⟨fun _ => .inl (.inr (.inl before)), fun _ => sound_refusal (failure_refusal _) fun _ _ found => found⟩
    rw [if_neg before]
    by_cases after : run.cancelledAfter = true
    · rw [if_pos after]
      refine ⟨fun _ => .inl (.inr (.inr after)), fun _ => sound_refusal (failure_refusal _) ?_⟩
      intro contract root found
      split_ifs at found
      · by_cases own : contract = (fullArgs lines refresh).contract
        · rw [own, Function.update_self] at found
          cases found
        · rw [Function.update_of_ne own] at found
          exact found
      · exact found
    rw [if_neg after]
    obtain ⟨ok, _⟩ := @full_lines_fields lines refresh _ _ there
    have answered := (reshape_fields ((fullArgs lines refresh).request true) ok).2.2.2
    constructor
    · intro sound
      obtain ⟨pages, _, complete⟩ := sound.complete answered
      refine .inr (.inr ⟨m, few, ?_⟩)
      rw [declared_, complete_listed at_m few there small complete]
    · intro settled
      have exact_ : total = listed run m := by
        rcases settled with given_up | ⟨b, inside, reached_, refused_⟩ | ⟨k, inside, same⟩
        · rcases given_up with one | one | one
          · exact absurd one changed
          · exact absurd one before
          · exact absurd one after
        · have past : m ≤ b := by
            by_contra earlier
            exact (each b (Nat.zero_le b) (by omega)).2 refused_
          have less : total ≤ listed run b := Nat.le_trans (last.resolve_left (by omega)) (listed_mono past)
          rcases reached_ with first | ⟨total', declared', more⟩
          · have none_left : m = 0 := by omega
            rcases at_m.total with ⟨_, absent⟩ | ⟨later, _⟩
            · rw [absent] at there
              cases there
            · exact absurd none_left later
          · cases declared_.symm.trans declared'
            omega
        · have total_ : total = listed run k := Int.ofNat_inj.mp (Option.some.inj (declared_.symm.trans same))
          rcases Nat.lt_trichotomy k m with earlier | same | later
          · rcases (each k (Nat.zero_le k) earlier).1 with first | ⟨total', declared', more⟩
            · rw [first] at total_
              exact absurd total_ (Nat.ne_of_gt some_)
            · cases declared_.symm.trans declared'
              omega
          · rw [total_, same]
          · have less := last.resolve_left (by omega)
            have more := @listed_mono run _ _ (Nat.le_of_lt later)
            omega
      subst exact_
      have tree := @full_lines_whole _ lines refresh _ _ at_m there bound
      constructor
      case complete =>
        exact fun _ => ⟨returned run m, .inr ⟨none_, m, rfl⟩,
          @whole_reshape ((fullArgs lines refresh).request true) rfl rfl _ _ tree⟩
      case stored =>
        intro contract root found
        by_cases written : (!documentResultRetryable (fullLines (fullArgs lines refresh) progress') && run.written) = true
        · rw [if_pos written] at found
          by_cases own : contract = (fullArgs lines refresh).contract
          · rw [own, Function.update_self] at found
            cases found
            have good := ((Bool.and_eq_true _ _).mp written).1
            rw [Bool.not_eq_true'] at good
            exact .inr ⟨own, good, answered, returned run m, .inr ⟨none_, m, rfl⟩, tree⟩
          · rw [Function.update_of_ne own] at found
            exact .inl found
        · rw [if_neg written] at found
          exact .inl found

end Reads

-- A document of 2001 pages, of which the extractor lists one with each call.
def shortPage (n : Nat) : Jval :=
  record [("index", count n), ("text", literal "text")]

def shortReply (n : Nat) : Jval :=
  record [("ok", .bool true), ("page_count", count 2001), ("pages", .arr [shortPage n])]

def shortBatches : Run where
  batches := fun _ start _ =>
    { cancelled := false
      shown := true
      reply := .exited true (some (shortReply start))
      stopped := false
      pages := fun _ =>
        { late := false
          shown := true
          render := .noTemp
          finished := true } }
  image := .cancelled
  escalated := none
  shown := true
  unchanged := true
  cancelledBefore := false
  written := true
  cancelledAfter := false

def noEntry : Cache :=
  fun _ => none

theorem short_pages (n : Nat) : pagesOf (shortReply n) = [shortPage n] := by
  rw [pagesOf, shortReply, get_record]
  rfl

theorem short_listed (b : Nat) : listed shortBatches b = b := by
  induction b with
  | zero => rfl
  | succ b ih =>
    rw [listed, ih]
    change b + (pagesOf (shortReply (1 + b))).length = b + 1
    rw [short_pages]
    rfl

theorem short_declared (n : Nat) (total : Option Int) (before : total.getD 2001 = 2001) : declared total (shortReply n) = 2001 := by
  have counted : jsonGet (shortReply n) (utf8 "page_count") = some (count 2001) := by
    rw [shortReply, get_record]
    rfl
  rw [declared, counted, Option.map_some, Option.getD_some, num_of_count, truncate_natural (by decide)]
  exact before

theorem short_accepted (n : Nat) : accepted 2001 5 (shortReply n) = true := by
  have counted : jsonGet (shortReply n) (utf8 "page_count") = some (count 2001) := by
    rw [shortReply, get_record]
    rfl
  rw [accepted, short_pages, counted, Option.map_some, Option.all_some, num_of_count, truncate_natural (by decide)]
  rfl

theorem short_page_read (n : Nat) (run : PageRun) (early : run.late = false) (shown : run.shown = true) :
    readPage n (shortPage n) run = .ok (readByText n (shortPage n)) := by
  have index : asNum (jsonGet (shortPage n) (utf8 "index")) = some (ofRatio false n 1) := by
    rw [shortPage, get_record]
    rfl
  have uninspected : inspectionOf (shortPage n) = none := by
    rw [inspectionOf, shortPage, get_record]
    rfl
  have text : pageTxt (shortPage n) = utf8 "text" := by
    rw [pageTxt, shortPage, get_record]
    rfl
  have figure : isTrue (jsonGet (shortPage n) (utf8 "has_raster_figure")) = false := by
    rw [shortPage, get_record]
    rfl
  have plain : needsImage (shortPage n) = false := by
    rw [needsImage, needsOcr, inspected, uninspected, text, figure, Bool.false_and, Bool.or_false]
    decide +kernel
  rw [readPage, early, if_neg Bool.false_ne_true, if_neg (fun other => other index), shown,
    if_neg (fun hidden => Bool.noConfusion hidden), plain, if_neg Bool.false_ne_true]

theorem short_read (b : Nat) (total : Option Int) (before : total.getD 2001 = 2001) :
    ∃ reads, readBatch 5 (1 + b) total (shortBatches.batches b (1 + b) 5) = .ok (2001, reads) := by
  have ok : isTrue (jsonGet (shortReply (1 + b)) (utf8 "ok")) = true := by
    rw [shortReply, get_record]
    rfl
  have good : (some (shortReply (1 + b))).filter (fun json => true && isTrue (jsonGet json (utf8 "ok"))) =
      some (shortReply (1 + b)) := Option.filter_eq_some_iff.mpr ⟨rfl, ok⟩
  refine ⟨[readByText (1 + b) (shortPage (1 + b))], ?_⟩
  simp only [readBatch, shortBatches, Bool.false_eq_true, Bool.true_eq_false, if_false, good, short_declared _ total before,
    short_accepted, short_pages, readPages]
  rw [Nat.add_zero, short_page_read _ _ rfl rfl]
  rfl

end SamosaChat.Reader
