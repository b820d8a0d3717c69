import SamosaChat.Reader.Reshape

set_option autoImplicit false

namespace SamosaChat.Reader

open Utf8 Text Binary64 Json

-- CHUTNI_SAMPLE_MAX_PAGES
def sampleMaxPages : Nat := 12

structure PageRange where
  start : Nat
  count : Nat
  starts : 1 ≤ start
  some_ : 1 ≤ count
  most : count ≤ 12
deriving DecidableEq

structure ReadArgs where
  lines : Bool
  sample : Option Nat
  range : Option PageRange
  refresh : Bool
  exclusive : sample = none ∨ range = none

def sampleTarget (args : Jval) : Option Nat :=
  (asNum (jsonGet args (utf8 "sample_characters"))).bind fun num =>
    if less num (ofRatio false 128 1) || less (ofRatio false 65536 1) num || !isFinite num then none
    else some (truncate num).toNat

def pageRange (start asked maxPages : Int) (most : maxPages ≤ 12) : PageRange where
  start := (max start 1).toNat
  count := if asked < 1 ∨ maxPages < asked then 5 else asked.toNat
  starts := by omega
  some_ := by
    split_ifs with other
    · decide
    · omega
  most := by
    split_ifs with other
    · decide
    · omega

def pagesArg (args : Jval) : Option PageRange :=
  match asArr (jsonGet args (utf8 "pages")) with
  | some (first :: second :: _) =>
    let start := ((asNum (some first)).map truncate).getD 1
    let asked := ((asNum (some second)).map truncate).getD (-1)
    some
      (if isTrue (jsonGet args (utf8 "window")) then pageRange start asked 12 (by decide)
      else pageRange start asked 5 (by decide))
  | _ => none

theorem pages_arg_absent {args : Jval} (absent : (jsonGet args (utf8 "pages")).isSome = false) : pagesArg args = none := by
  rw [pagesArg, Option.isSome_eq_false_iff.mp absent |> Option.isNone_iff_eq_none.mp]
  rfl

def readArgs (args : Jval) : Except Jval ReadArgs :=
  if both : ((sampleTarget args).isSome && (jsonGet args (utf8 "pages")).isSome) = true then
    .error (failure "invalid_sample_range")
  else
    .ok
      { lines := asStr (jsonGet args (utf8 "detail")) == some (utf8 "lines")
        sample := sampleTarget args
        range := pagesArg args
        refresh := isTrue (jsonGet args (utf8 "refresh"))
        exclusive := by
          rw [Bool.and_eq_true, not_and_or, Bool.not_eq_true, Bool.not_eq_true, Option.isSome_eq_false_iff,
            Option.isNone_iff_eq_none] at both
          exact both.imp_right pages_arg_absent }

-- contract_ver, which names the entry of a file that was read with these arguments.
inductive Contract
  | full
  | pages (range : PageRange)
  | sample (target : Nat)
deriving DecidableEq

def ReadArgs.contract (args : ReadArgs) : Contract :=
  match args.sample, args.range with
  | some target, _ => .sample target
  | none, some range => .pages range
  | none, none => .full

def ReadArgs.request (args : ReadArgs) (isPdf : Bool) : Request where
  lines := args.lines
  range :=
    match args.range with
    | some range => { start := range.start, count := some range.count }
    | none => whole
  isPdf := isPdf

abbrev Cache := Contract → Option Jval

inductive Reply
  | silent (timeout : Bool)
  | exited (success : Bool) (json : Option Jval)

def replyPages : Reply → List Jval
  | .exited _ (some json) => pagesOf json
  | _ => []

structure BatchRun where
  cancelled : Bool
  shown : Bool
  reply : Reply
  stopped : Bool
  pages : Nat → PageRun

structure Run where
  batches : Nat → Nat → Nat → BatchRun
  image : OcrRun
  escalated : Option (List Jval × OcrSummary)
  shown : Bool
  unchanged : Bool
  cancelledBefore : Bool
  written : Bool
  cancelledAfter : Bool

structure Progress where
  total : Option Int
  nextStart : Nat
  pages : List Jval
  characters : Nat
  retryable : Bool

def begun (args : ReadArgs) : Progress where
  total := none
  nextStart := (args.range.map PageRange.start).getD 1
  pages := []
  characters := 0
  retryable := false

def batchCount (args : ReadArgs) (nextStart : Nat) : Nat :=
  if args.sample.isSome then 1
  else
    match args.range with
    | some range => min (range.start + range.count - nextStart) 5
    | none => 5

def readPages (pages : Nat → PageRun) : Nat → Nat → List Jval → Except Jval (List PageRead)
  | _, _, [] => .ok []
  | nextStart, p, kid :: kids => do
    let first ← readPage (nextStart + p) kid (pages p)
    let rest ← readPages pages nextStart (p + 1) kids
    return first :: rest

def replyError (json : Option Jval) : Jval :=
  record
    [("ok", .bool false),
      ("error", .str (((json.bind fun json => asStr (jsonGet json (utf8 "error")))).getD (utf8 "image_invalid")))]

def declared (total : Option Int) (json : Jval) : Int :=
  total.getD (((jsonGet json (utf8 "page_count")).map fun value => truncate (numOf value)).getD (pagesOf json).length)

def accepted (total : Int) (count : Nat) (json : Jval) : Bool :=
  1 ≤ total && total ≤ 10000 && 1 ≤ (pagesOf json).length && (pagesOf json).length ≤ count &&
    ((jsonGet json (utf8 "page_count")).map fun value => truncate (numOf value)).all (· == total)

def readBatch (count nextStart : Nat) (total : Option Int) (batch : BatchRun) : Except Jval (Int × List PageRead) :=
  if batch.cancelled then .error (failure "document_cancelled")
  else if batch.shown = false then .error (failure "document_cancelled")
  else if batch.stopped then .error (failure "document_cancelled")
  else
    match batch.reply with
    | .silent timeout => .error (if timeout then failureRetryable "document_timeout" else failure "image_invalid")
    | .exited success json =>
      match json.filter fun json => success && isTrue (jsonGet json (utf8 "ok")) with
      | none => .error (replyError json)
      | some json =>
        if accepted (declared total json) count json = false then .error (failureRetryable "pdf_incomplete")
        else do
          let reads ← readPages batch.pages nextStart 0 (pagesOf json)
          return (declared total json, reads)

def Progress.add (progress : Progress) (total : Int) (reads : List PageRead) : Progress where
  total := some total
  nextStart := progress.nextStart + reads.length
  pages := progress.pages ++ reads.map PageRead.tree
  characters := progress.characters + (reads.map fun read => documentPageCharacterCount read.tree).sum
  retryable := progress.retryable || reads.any PageRead.retryable

def wantsMore (args : ReadArgs) (progress : Progress) : Bool :=
  progress.total.all (fun total => (progress.nextStart : Int) ≤ total) &&
    args.sample.all fun target => progress.characters < target && progress.pages.length < sampleMaxPages

def rangeDone (args : ReadArgs) (progress : Progress) : Bool :=
  args.range.any fun range => range.start + range.count ≤ progress.nextStart

-- The batch loop. Its first argument is batches_left.
def readBatches (args : ReadArgs) (run : Run) : Nat → Nat → Progress → Except Jval Progress
  | 0, _, progress => .ok progress
  | left + 1, b, progress =>
    if wantsMore args progress = false then .ok progress
    else do
      let size := batchCount args progress.nextStart
      let (total, reads) ← readBatch size progress.nextStart progress.total (run.batches b progress.nextStart size)
      let progress := progress.add total reads
      if rangeDone args progress then return progress else readBatches args run left (b + 1) progress

def batchesLeft : Nat := 2000

def sampleMeta (target total : Nat) (progress : Progress) : List (String × Jval) :=
  [("sampled", .bool (progress.pages.length < total)), ("characters_read", count progress.characters),
    ("pages_read", count progress.pages.length), ("character_target", count target),
    ("stop_reason", literal
      (if total ≤ progress.pages.length then "end_of_file"
      else if target ≤ progress.characters then "character_target"
      else "page_guard"))]

def fullLines (args : ReadArgs) (progress : Progress) : Jval :=
  let total := (progress.total.getD 0).toNat
  record
    ([("ok", .bool true), ("page_count", count total), ("pages", .arr progress.pages)] ++
      ((args.sample.map fun target => sampleMeta target total progress).getD []) ++
      if progress.retryable then [("retryable", .bool true)] else [])

def imageLines (lines : List Jval) (summary : OcrSummary) : Jval :=
  record
    [("ok", .bool true), ("page_count", count 1), ("pages", .arr
        [record
          [("index", count 1), ("source", literal "ocr"), ("lines_total", count lines.length),
            ("lines_uncertain", count summary.uncertain), ("min_conf", .num (throughFour summary.minConf)),
            ("needs_review", .bool (summary.uncertain != 0 || lines.isEmpty)), ("lines", .arr lines)]])]

def readImage (run : Run) : Except Jval Jval :=
  match run.image with
  | .cancelled => .error (failure "document_cancelled")
  | .failed status reported => .error (documentOcrFailure status reported)
  | .exited root =>
    match root.bind ocrJsonValidate with
    | none => .error (failureRetryable "ocr_invalid")
    | some lines =>
      let summary := ocrSummary lines
      let escalated := run.escalated.filter fun _ => summary.uncertain != 0
      .ok ((escalated.map fun better => imageLines better.1 better.2).getD (imageLines lines summary))

def extract (args : ReadArgs) (isPdf : Bool) (run : Run) : Except Jval Jval :=
  if isPdf then (readBatches args run batchesLeft 0 (begun args)).map (fullLines args) else readImage run

def sharedFull (cache : Cache) : Option Jval :=
  (cache .full).filter fun root =>
    !documentResultRetryable root &&
      match asNum (jsonGet root (utf8 "page_count")), asArr (jsonGet root (utf8 "pages")) with
      | some num, some pages =>
        less zero num && num == ofRatio false pages.length 1 &&
          (pages.mapIdx fun i page => asNum (jsonGet page (utf8 "index")) == some (ofRatio false (i + 1) 1)).all id
      | _, _ => false

def lookup (args : ReadArgs) (cache : Cache) : Option Jval :=
  if args.refresh then none
  else
    match cache args.contract with
    | some root => some root
    | none => if args.sample.isNone && args.range.isSome then sharedFull cache else none

-- A read answers, or hands a NULL pointer to json_parse.
inductive Outcome
  | answered (response : Jval) (cache : Cache)
  | nullParsed

def coldRead (args : ReadArgs) (isPdf : Bool) (cache : Cache) (run : Run) : Outcome :=
  match extract args isPdf run with
  | .error response => .answered response cache
  | .ok root =>
    if run.unchanged = false then .answered (failure "changed_during_read") cache
    else if run.cancelledBefore then .answered (failure "document_cancelled") cache
    else
      let written := !documentResultRetryable root && run.written
      let stored := if written then Function.update cache args.contract (some root) else cache
      if run.cancelledAfter then
        .answered (failure "document_cancelled") (if written then Function.update cache args.contract none else cache)
      else .answered (reshapeDocReadResult (args.request isPdf) root) stored

def docRead (args : ReadArgs) (isPdf progress : Bool) (cache : Cache) (run : Run) : Outcome :=
  match lookup args cache with
  | none => coldRead args isPdf cache run
  | some cached =>
    if documentResultRetryable cached then
      if args.sample.isSome && progress then .nullParsed else coldRead args isPdf cache run
    else if run.shown then .answered (reshapeDocReadResult (args.request isPdf) cached) cache
    else .answered (failure "document_cancelled") cache

end SamosaChat.Reader
