import SamosaChat.Json.Record

set_option autoImplicit false

namespace SamosaChat.Reader

open Utf8 Text Binary64 Json

-- The reader writes its JSON as text and reads it back with json_parse. Here a document is the value itself.

def count (n : Nat) : Jval :=
  .num (ofRatio false n 1)

def literal (text : String) : Jval :=
  .str (utf8 text)

def isTrue : Option Jval → Bool
  | some (.bool boolean) => boolean
  | _ => false

def asStr : Option Jval → Option Bytes
  | some (.str str) => some str
  | _ => none

def asNum : Option Jval → Option Double
  | some (.num num) => some num
  | _ => none

def asArr : Option Jval → Option (List Jval)
  | some (.arr kids) => some kids
  | _ => none

def asObj : Option Jval → Option Jval
  | some (.obj fields) => some (.obj fields)
  | _ => none

-- (int)num. A number that no int holds is not looked at further than its bounds.
def truncate : Double → Int
  | .finite negative magnitude => if negative then -(magnitude.units / one : Nat) else (magnitude.units / one : Nat)
  | _ => 0

def numOf : Jval → Double
  | .num num => num
  | _ => zero

def intAt (o : Jval) (key : String) : Int :=
  ((jsonGet o (utf8 key)).map fun value => truncate (numOf value)).getD 0

def signedUnits (negative : Bool) (magnitude : Magnitude) : Int :=
  if negative then -magnitude.units else magnitude.units

def less : Double → Double → Bool
  | .nan, _ | _, .nan => false
  | .inf a, .inf b => a && !b
  | .inf a, .finite _ _ => a
  | .finite _ _, .inf b => !b
  | .finite a m, .finite b n => signedUnits a m < signedUnits b n

def isFinite : Double → Bool
  | .finite _ _ => true
  | _ => false

-- What "%.4f" is read back as.
def throughFour : Double → Double
  | .finite negative magnitude => ofScaled negative 10 (nearest (magnitude.units * 10 ^ 4) one) (-4)
  | other => other

def failure (error : String) : Jval :=
  record [("ok", .bool false), ("error", literal error)]

def failureRetryable (error : String) : Jval :=
  record [("ok", .bool false), ("error", literal error), ("retryable", .bool true)]

-- The lines of a text, as emit_text_layer_page cuts it.
def textLines : Bytes → List Bytes
  | [] => []
  | c :: rest =>
    if c = 0x0a then [] :: textLines rest
    else
      match textLines rest with
      | [] => [[c]]
      | line :: lines => (c :: line) :: lines

def textLine (conf : Double) (text : Bytes) : Jval :=
  record
    [("bbox", .arr [count 0, count 0, count 0, count 0]), ("text", .str text), ("conf", .num conf),
      ("script", literal "printed"), ("reader", literal "text_layer")]

def emitTextLayerPage (text : Bytes) (sourceLabel : String) : List (String × Jval) :=
  let incomplete := sourceLabel == "text_layer_ocr_unavailable"
  [("source", literal sourceLabel), ("lines_total", count (textLines text).length), ("lines_uncertain", count 0),
    ("min_conf", if incomplete then count 0 else count 1), ("needs_review", .bool incomplete),
    ("lines", .arr ((textLines text).map (textLine (ofRatio false 1 1))))]

inductive OcrStatus
  | exited (code : Nat)
  | signaled (xcpu : Bool)

def documentOcrFailure (status : OcrStatus) (reported : Option Bytes) : Jval :=
  let code :=
    match status with
    | .exited code => if code = 127 then "ocr_unavailable" else "ocr_process_failed"
    | .signaled xcpu => if xcpu then "ocr_timeout" else "ocr_process_failed"
  let error :=
    match reported with
    | some error =>
      if error = utf8 "ocr_unavailable" ∨ error = utf8 "image_invalid" then Jval.str error else literal code
    | none => literal code
  record [("ok", .bool false), ("retryable", .bool true), ("error", error)]

def confValid (line : Jval) : Bool :=
  match jsonGet line (utf8 "conf") with
  | none => true
  | some (.num conf) => isFinite conf && !less conf zero && !less (ofRatio false 1 1) conf
  | some _ => false

def bboxValid (line : Jval) : Bool :=
  match jsonGet line (utf8 "bbox") with
  | none => true
  | some (.arr [.num x0, .num y0, .num x1, .num y1]) =>
    [x0, y0, x1, y1].all isFinite && less x0 x1 && less y0 y1
  | some _ => false

def ocrLineValid (line : Jval) : Bool :=
  (asStr (jsonGet line (utf8 "text"))).isSome && confValid line && bboxValid line

def ocrJsonValidate (root : Jval) : Option (List Jval) :=
  match asArr (jsonGet root (utf8 "lines")) with
  | some lines => if isTrue (jsonGet root (utf8 "ok")) && lines.all ocrLineValid then some lines else none
  | none => none

structure OcrSummary where
  uncertain : Nat
  minConf : Double

-- 0.84
def certain : Double :=
  ofScaled false 10 84 (-2)

def ocrSummary (lines : List Jval) : OcrSummary :=
  let confs := lines.map fun line => asNum (jsonGet line (utf8 "conf"))
  let known := confs.filterMap id
  { uncertain := (confs.filter fun conf => conf.all fun c => less c certain).length
    minConf := if known = [] then zero else known.foldl (fun least c => if less c least then c else least) (ofRatio false 1 1) }

def inspectionOf (p : Jval) : Option Jval :=
  jsonGet p (utf8 "inspection")

def pageTxt (p : Jval) : Bytes :=
  (asStr (jsonGet p (utf8 "text"))).getD []

def inspected (p : Jval) (key : String) : Option Jval :=
  (inspectionOf p).bind fun inspection => jsonGet inspection (utf8 key)

def needsOcr (p : Jval) : Option Bool :=
  match inspected p "needs_ocr" with
  | some (.bool boolean) => some boolean
  | _ => none

def blank (p : Jval) : Bool :=
  (needsOcr p).isSome && isTrue (inspected p "blank")

def needsImage (p : Jval) : Bool :=
  (needsOcr p).getD
    (pageTxt p == [] ||
      isTrue (jsonGet p (utf8 "has_raster_figure")) &&
        if 0 < intAt p "tokens" then intAt p "tokens" < 20 else intAt p "text_chars" < 50)

def extractedText (p : Jval) : Bytes :=
  if needsImage p = false ∧ blank p = true then [] else pageTxt p

def incomplete (page : Jval) : Bool :=
  isTrue (inspected page "incomplete")

def pageTree (page : Nat) (p : Jval) (rest : List (String × Jval)) : Jval :=
  record ([("index", count page)] ++ ((asObj (inspectionOf p)).map fun inspection => ("inspection", inspection)).toList ++ rest)

def ocrPage (text : Bytes) (lines : List Jval) (unfinished : Bool) : List (String × Jval) :=
  let native := text != []
  let summary := ocrSummary lines
  [("source", literal (if native then "ocr_with_text_layer" else "ocr")),
    ("lines_total", count (lines.length + if native then 1 else 0)), ("lines_uncertain", count summary.uncertain),
    ("min_conf", .num (throughFour summary.minConf)),
    ("needs_review", .bool (summary.uncertain != 0 || lines.isEmpty || unfinished)),
    ("lines", .arr ((if native then [textLine (ofRatio false 1 1) text] else []) ++ lines))]

inductive OcrRun
  | cancelled
  | failed (status : OcrStatus) (reported : Option Bytes)
  | exited (root : Option Jval)

inductive RenderRun
  | noTemp
  | unrendered (timeout : Bool)
  | rendered (ocr : OcrRun)

structure PageRun where
  late : Bool
  shown : Bool
  render : RenderRun
  finished : Bool

structure PageRead where
  tree : Jval
  retryable : Bool

def fallback (page : Nat) (p : Jval) (response : Jval) : Except Jval PageRead :=
  if pageTxt p = [] then .error response
  else .ok ⟨pageTree page p (emitTextLayerPage (pageTxt p) "text_layer_ocr_unavailable"), true⟩

def readByImage (page : Nat) (p : Jval) (run : PageRun) : Except Jval PageRead :=
  match run.render with
  | .noTemp => .error (failureRetryable "document_temp_unavailable")
  | .unrendered timeout =>
    fallback page p (failureRetryable (if timeout then "document_timeout" else "pdf_render_failed"))
  | .rendered .cancelled => .error (failure "document_cancelled")
  | .rendered (.failed status reported) => fallback page p (documentOcrFailure status reported)
  | .rendered (.exited root) =>
    match root.bind ocrJsonValidate with
    | none => fallback page p (failureRetryable "ocr_invalid")
    | some lines =>
      if run.finished then .ok ⟨pageTree page p (ocrPage (pageTxt p) lines (incomplete p)), incomplete p⟩
      else .error (failure "document_cancelled")

def readByText (page : Nat) (p : Jval) : PageRead where
  tree := pageTree page p (emitTextLayerPage (extractedText p) (if blank p then "blank" else "text_layer"))
  retryable := false

def readPage (page : Nat) (p : Jval) (run : PageRun) : Except Jval PageRead :=
  if run.late then .error (failureRetryable "document_timeout")
  else if asNum (jsonGet p (utf8 "index")) ≠ some (ofRatio false page 1) then .error (failureRetryable "pdf_incomplete")
  else if run.shown = false then .error (failure "document_cancelled")
  else if needsImage p then readByImage page p run
  else .ok (readByText page p)

def documentCharacterCount (text : Bytes) : Nat :=
  (text.filter fun c => c &&& 0xc0 != 0x80).length

def documentPageCharacterCount (page : Jval) : Nat :=
  (((asArr (jsonGet page (utf8 "lines"))).getD []).map fun line =>
    documentCharacterCount ((asStr (jsonGet line (utf8 "text"))).getD [])).sum

end SamosaChat.Reader
