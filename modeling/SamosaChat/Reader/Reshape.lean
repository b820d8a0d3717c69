import SamosaChat.Reader.Pages

set_option autoImplicit false

namespace SamosaChat.Reader

open Utf8 Text Binary64 Decimal Json

def pagesOf (root : Jval) : List Jval :=
  (asArr (jsonGet root (utf8 "pages"))).getD []

def sourceOf (page : Jval) : Option Bytes :=
  asStr (jsonGet page (utf8 "source"))

def unavailable : Bytes :=
  utf8 "text_layer_ocr_unavailable"

def documentResultRetryable (root : Jval) : Bool :=
  !isTrue (jsonGet root (utf8 "ok")) || isTrue (jsonGet root (utf8 "retryable")) ||
    (pagesOf root).any fun page => sourceOf page == some unavailable || incomplete page

structure Range where
  start : Nat
  count : Option Nat

def whole : Range :=
  { start := 1, count := none }

def Range.contains (range : Range) (number : Int) : Bool :=
  range.start ≤ number && range.count.all fun count => number - range.start < count

structure Request where
  lines : Bool
  range : Range
  isPdf : Bool

def linesOf (page : Jval) : List Jval :=
  (asArr (jsonGet page (utf8 "lines"))).getD []

def nativeLine (line : Jval) : Bool :=
  asStr (jsonGet line (utf8 "reader")) == some (utf8 "text_layer")

def lineTexts (lines : List Jval) : Bytes :=
  (lines.filterMap fun line => asStr (jsonGet line (utf8 "text"))).flatMap (· ++ [0x0a])

def structuredText (page : Jval) : Bytes :=
  lineTexts ((linesOf page).filter nativeLine)

def ocrText (page : Jval) : Bytes :=
  lineTexts ((linesOf page).filter fun line => !nativeLine line)

def needsReview (page : Jval) : Bool :=
  isTrue (jsonGet page (utf8 "needs_review")) || incomplete page

def warning (page : Jval) : Bytes :=
  if sourceOf page = some unavailable then
    utf8 "[Reader warning: OCR failed or was unavailable; native text may be incomplete.]"
  else if incomplete page then
    utf8 "[Reader warning: page inspection was incomplete; OCR/text coverage is not fully verified.]"
  else if (asArr (jsonGet page (utf8 "lines"))).any List.isEmpty then
    utf8 "[Reader warning: OCR recognized no readable text; this does not prove the page is blank.]"
  else utf8 "[Reader warning: OCR text is uncertain or coverage is incomplete; verify before relying on absence.]"

def pageLabel (isPdf : Bool) (number total : Int) : Bytes :=
  utf8 (if isPdf then "[PDF page " else "[Image ") ++ decimalInt number ++ utf8 " of " ++ decimalInt total ++ utf8 "]\n"

structure Section where
  number : Int
  warning : Option Bytes
  structured : Bytes
  ocr : Bytes

def onNewLine (text : Bytes) : Bytes :=
  if text = [] then [] else text ++ [0x0a]

def addSection (isPdf : Bool) (total : Int) (text : Bytes) (part : Section) : Bytes :=
  let text := (part.warning.map fun warning => onNewLine text ++ warning).getD text
  onNewLine text ++ pageLabel isPdf part.number total ++ utf8 "STRUCTURED TEXT:\n" ++ part.structured ++ utf8 "OCR:\n" ++
    part.ocr

def documentText (isPdf : Bool) (total : Int) (sections : List Section) : Bytes :=
  sections.foldl (addSection isPdf total) []

def pageNumber (i : Nat) (page : Jval) : Int :=
  ((asNum (jsonGet page (utf8 "index"))).map truncate).getD (i + 1)

def sectionOf (number : Int) (page : Jval) : Section where
  number := number
  warning := if needsReview page then some (warning page) else none
  structured := structuredText page
  ocr := ocrText page

def integer (n : Int) : Jval :=
  .num (ofRatio (n < 0) n.natAbs 1)

def reshapedPage (lines : Bool) (i : Nat) (page : Jval) : Jval :=
  record
    ([("index", integer (((jsonGet page (utf8 "index")).map fun value => truncate (numOf value)).getD (i + 1))),
      ("source", .str ((sourceOf page).getD (utf8 "ocr")))] ++
      ((asObj (inspectionOf page)).map fun inspection => ("inspection", inspection)).toList ++
      [("lines_total", integer (intAt page "lines_total")), ("lines_uncertain", integer (intAt page "lines_uncertain")),
        ("min_conf", .num (throughFour ((asNum (jsonGet page (utf8 "min_conf"))).getD zero))),
        ("needs_review", .bool (needsReview page))] ++
      ((if lines then asArr (jsonGet page (utf8 "lines")) else none).map fun kids => ("lines", Jval.arr kids)).toList)

def sampleKeys : List String :=
  ["sampled", "characters_read", "pages_read", "character_target", "stop_reason"]

def totalPages (root : Jval) : Int :=
  ((asNum (jsonGet root (utf8 "page_count"))).map truncate).getD (pagesOf root).length

def selected (range : Range) (root : Jval) : List (Nat × Jval) :=
  ((pagesOf root).mapIdx Prod.mk).filter fun entry => range.contains (pageNumber entry.1 entry.2)

def uncertain (page : Jval) : Bool :=
  ((jsonGet page (utf8 "lines_uncertain")).map numOf).any fun num => less zero num

def reshapeDocReadResult (request : Request) (root : Jval) : Jval :=
  if isTrue (jsonGet root (utf8 "ok")) = false then root
  else
    let total := totalPages root
    let chosen := selected request.range root
    record
      ([("ok", .bool true), ("page_count", integer total),
        ("pages", .arr (chosen.map fun entry => reshapedPage request.lines entry.1 entry.2)),
        ("text", .str (documentText request.isPdf total
          (chosen.map fun entry => sectionOf (pageNumber entry.1 entry.2) entry.2))),
        ("any_uncertain", .bool (chosen.any fun entry => uncertain entry.2)),
        ("needs_review", .bool (chosen.any fun entry => needsReview entry.2))] ++
        (if isTrue (jsonGet root (utf8 "retryable")) || chosen.any fun entry => incomplete entry.2 then
          [("retryable", Jval.bool true)] else []) ++
        sampleKeys.filterMap fun key => (jsonGet root (utf8 key)).map fun value => (key, value))

end SamosaChat.Reader
