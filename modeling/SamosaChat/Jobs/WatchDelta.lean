import SamosaChat.Durable.JobEvents
import SamosaChat.Json.Members
import SamosaChat.Lib.Scanf
import SamosaChat.Lib.SortedKeys

set_option autoImplicit false

namespace SamosaChat.Jobs

open Utf8 Text Binary64 Decimal FloatText Json
open Durable SortedKeys

def maxFiles : Nat := 10000

def pathMax : Nat := 4096

def jobsReportType (path : Bytes) : Bytes :=
  let base := Text.afterLast 0x2f path
  let dot := 0x2e :: Text.afterLast 0x2e base
  if 0x2e ∉ base ∨ dot = base ∨ dot.length = 1 then utf8 "[no extension]"
  else (dot.take 31).map toLower

def billing : List String :=
  ["invoice", "receipt", "payment", "billing", "statement", "tax", "bill"]

def medical : List String :=
  ["medical", "health", "doctor", "clinic", "vaccine", "vaccination", "prescription", "lab-result"]

def work : List String :=
  ["work", "meeting", "project", "resume", "cv", "proposal", "roadmap", "sprint"]

def personal : List String :=
  ["personal", "family", "travel", "diary", "journal", "photo"]

def inboxMatches (lower : Bytes) : List (String × String) :=
  [("billing", billing), ("medical", medical), ("work", work), ("personal", personal)].filterMap fun (name, words) =>
    (words.find? fun word => (Text.find (utf8 word) lower).isSome).map fun word => (name, word)

def jobsInboxCategory (path : Bytes) : String × String :=
  let lower := ((Text.afterLast 0x2f path).take (pathMax - 1)).map toLower
  match inboxMatches lower with
  | [] => ("review", "no clear filename clue")
  | [found] => found
  | _ => ("review", "conflicting filename clues")

structure WatchEntry where
  path : Bytes
  size : Nat
  dev : Nat
  ino : Nat
  mtime : Double
deriving DecidableEq

-- strcmp looks at the bytes as numbers.
def pathKey (path : Bytes) : List Nat :=
  path.map UInt8.toNat

-- The cast to unsigned long long. Outside its range C leaves it open, and arm64 goes to the nearest end.
def toUnsigned : Double → Nat
  | .finite false magnitude => min (magnitude.units / one) (2 ^ 64 - 1)
  | .inf false => 2 ^ 64 - 1
  | _ => 0

def sameIdentity (current previous : WatchEntry) : Bool :=
  current.size == previous.size && sameNumber current.mtime previous.mtime && current.dev == previous.dev &&
    current.ino == previous.ino

def stringField (row : Jval) (key : String) : Option Bytes :=
  match jsonGet row (utf8 key) with
  | some (.str str) => some str
  | _ => none

def numberField (row : Jval) (key : String) : Option Double :=
  match jsonGet row (utf8 key) with
  | some (.num num) => some num
  | _ => none

def watchRow (pathField : String) (row : Jval) : Option WatchEntry := do
  let path ← stringField row pathField
  let size ← numberField row "size"
  let mtime ← numberField row "mtime"
  let dev ← numberField row "dev"
  let ino ← numberField row "ino"
  return { path := path, size := toUnsigned size, dev := toUnsigned dev, ino := toUnsigned ino, mtime := mtime }

def jsonValue (text : Bytes) : Option Jval :=
  match jsonParse text with
  | .ok (value, _) => some value
  | .error _ => none

def readState (text : Bytes) : Option (List WatchEntry) :=
  match (jsonValue text).bind fun obj => jsonGet obj (utf8 "files") with
  | some (.arr rows) => if rows.length > maxFiles then none else rows.mapM (watchRow "path")
  | _ => none

structure Inventory where
  files : List WatchEntry
  skipped : Nat
  done : Bool
  incomplete : Bool
deriving DecidableEq

def inventoryStep (inventory : Inventory) (record : Bytes) : Option Inventory :=
  match jsonValue record with
  | some (.obj fields) =>
    let obj := Jval.obj fields
    let type := stringField obj "type"
    if type = some (utf8 "file") then
      (watchRow "rel_path" obj).bind fun entry =>
        if inventory.files.length ≥ maxFiles then none
        else some { inventory with files := inventory.files ++ [entry] }
    else if type = some (utf8 "skip") then some { inventory with skipped := inventory.skipped + 1 }
    else if type = some (utf8 "done") then
      let incomplete := match jsonGet obj (utf8 "partial") with
        | some (.bool boolean) => boolean
        | _ => false
      some { inventory with done := true, incomplete := incomplete }
    else some inventory
  | _ => none

def readInventory (raw : Bytes) : Option Inventory :=
  (lines (cstr raw)).foldlM inventoryStep { files := [], skipped := 0, done := false, incomplete := false }

def runCapture (limit : Nat) (output : Option Bytes) : Option Bytes :=
  output.filter fun bytes => decide (bytes.length < limit)

def jobsWatchFind (entries : List WatchEntry) (path : Bytes) : Option Nat :=
  bisect (entries.map fun entry => pathKey entry.path) (pathKey path) entries.length 0 entries.length

def isNew (previous : List WatchEntry) (entry : WatchEntry) : Bool :=
  match (jobsWatchFind previous entry.path).bind (previous[·]?) with
  | none => true
  | some old => !sameIdentity entry old

structure WatchItem where
  path : Bytes
  category : String
  signal : String
deriving DecidableEq

def maxGroups : Nat := 64

def countType (groups : List (Bytes × Nat)) (type : Bytes) : List (Bytes × Nat) :=
  if type ∈ groups.map Prod.fst then
    groups.map fun group => if group.1 = type then (group.1, group.2 + 1) else group
  else if groups.length < maxGroups then groups ++ [(type, 1)]
  else groups

structure WatchReport where
  recipe : Bytes
  checked : Nat
  added : Nat
  changed : Nat
  removed : Nat
  skipped : Nat
  processed : Nat
  items : Option (List WatchItem)
  byType : Option (List (Bytes × Nat))
  initialized : Bool
deriving DecidableEq

def countAdded (aligned : List (WatchEntry × Option WatchEntry)) : Nat :=
  aligned.countP fun pair => pair.2.isNone

def countChanged (aligned : List (WatchEntry × Option WatchEntry)) : Nat :=
  aligned.countP fun pair => pair.2.any fun old => !sameIdentity pair.1 old

def alignPaths (entries others : List WatchEntry) : List (WatchEntry × Option WatchEntry) :=
  align (fun entry => pathKey entry.path) (fun entry => pathKey entry.path) entries others

def inboxItem (entry : WatchEntry) : WatchItem :=
  let (category, signal) := jobsInboxCategory entry.path
  { path := entry.path, category := category, signal := signal }

def watchReport (recipe : Bytes) (baseline : Bool) (current previous : List WatchEntry) (skipped : Nat) : WatchReport :=
  let added := if baseline then 0 else countAdded (alignPaths current previous)
  let changed := if baseline then 0 else countChanged (alignPaths current previous)
  let removed := if baseline then 0 else countAdded (alignPaths previous current)
  let fresh := current.filter (isNew previous)
  { recipe := recipe
    checked := current.length
    added := added
    changed := changed
    removed := removed
    skipped := skipped
    processed := if baseline then 0 else added + changed
    items := if baseline = false ∧ recipe = utf8 "classify_inbox" then some (fresh.map inboxItem) else none
    byType :=
      if baseline = false ∧ recipe = utf8 "folder_report" then
        some (fresh.foldl (fun groups entry => countType groups (jobsReportType entry.path)) [])
      else none
    initialized := baseline }

def watchSummary (report : WatchReport) : Bytes :=
  let item (item : WatchItem) : Bytes :=
    utf8 "\x7b\"path\":" ++ quoted item.path ++ utf8 ",\"category\":" ++ quoted (utf8 item.category) ++
      utf8 ",\"signal\":" ++ quoted (utf8 item.signal) ++ utf8 "\x7d"
  let group (group : Bytes × Nat) : Bytes := quoted group.1 ++ utf8 ":" ++ decimal group.2
  utf8 "\"recipe\":" ++ quoted report.recipe ++ utf8 ",\"checked\":" ++ decimal report.checked ++
    utf8 ",\"added\":" ++ decimal report.added ++ utf8 ",\"changed\":" ++ decimal report.changed ++
    utf8 ",\"removed\":" ++ decimal report.removed ++ utf8 ",\"skipped\":" ++ decimal report.skipped ++
    utf8 ",\"processed\":" ++ decimal report.processed ++
    (report.items.elim [] fun items => utf8 ",\"items\":[" ++ commas (items.map item) ++ utf8 "]") ++
    (report.byType.elim [] fun groups => utf8 ",\"by_type\":\x7b" ++ commas (groups.map group) ++ utf8 "\x7d") ++
    utf8 ",\"initialized\":" ++ utf8 (if report.initialized then "true" else "false")

-- snprintf into a buffer of 64 bytes.
def mtimeText (mtime : Double) : Bytes :=
  (fixedNine mtime).take 63

def rowText (entry : WatchEntry) : Bytes :=
  utf8 "\x7b\"path\":" ++ quoted entry.path ++ utf8 ",\"size\":" ++ decimal entry.size ++ utf8 ",\"mtime\":" ++
    mtimeText entry.mtime ++ utf8 ",\"dev\":" ++ decimal entry.dev ++ utf8 ",\"ino\":" ++ decimal entry.ino ++ utf8 "\x7d"

def stateText (current : List WatchEntry) : Bytes :=
  utf8 "\x7b\"schema_version\":1,\"files\":[" ++ commas (current.map rowText) ++ utf8 "]\x7d\n"

def stateMax : Nat := 4 <<< 20

def inventoryMax : Nat := 8 <<< 20

structure WatchPoll where
  calls : EventCalls
  output : Option Bytes
  recipe : Bytes
  baseline : Bool

def readPrevious (calls : EventCalls) (file : Option Bytes) : Option (List WatchEntry) :=
  match readFileLimit calls stateMax file with
  | none => some []
  | some text => readState text

def watchOutcome (poll : WatchPoll) (file : Option Bytes) : Option (WatchReport × Bytes) := do
  let previous ← readPrevious poll.calls file
  let raw ← runCapture inventoryMax poll.output
  let inventory ← readInventory raw
  if inventory.done = false ∨ inventory.incomplete = true then none
  else
    let current := sortOn (fun entry => pathKey entry.path) inventory.files
    let previous := sortOn (fun entry => pathKey entry.path) previous
    some (watchReport poll.recipe poll.baseline current previous inventory.skipped, stateText current)

def jobsWatchDelta (poll : WatchPoll) (file : Option Bytes) : Option WatchReport × Option Bytes :=
  match watchOutcome poll file with
  | none => (none, file)
  | some (report, text) =>
    let (ok, file) := writeSmallFile poll.calls text file
    (if ok then some report else none, file)

end SamosaChat.Jobs
