import SamosaChat.Lib.Sha256
import SamosaChat.Fs.Paths

set_option autoImplicit false

namespace SamosaChat.Fs

open Crash

-- `mtime` is the comparison of the file's time with --mtime, which is made in floating point.
structure Expected where
  size : Nat
  mtime : Int → Bool
  dev : Nat
  ino : Nat

structure CopyArgs where
  root : Option PathArg
  src : Option PathArg
  dst : Option PathArg
  operationId : Option String
  expectedHash : Option String
  expected : Expected
  haveSize : Bool
  haveMtime : Bool
  haveDev : Bool
  haveIno : Bool

structure CopyResult where
  applied : Bool
  already : Bool
  reason : Option String
  deriving DecidableEq

def notApplied (reason : String) : CopyResult :=
  { applied := false, already := false, reason := some reason }

def badComponent (component : String) : Bool :=
  component == "" || component == "." || component == ".."

def enter (attempt : Attempt) (use : Use) (create : Bool) (name : Path) : Run Bool := do
  let made ← if create then perform attempt (.mkdir use name) (Folder.mkdir name) else pure (.ok ())
  if made = .ok () ∨ made = .error .eexist then
    match ← perform attempt (.openDirectory use name) (Folder.openDirectory name) with
    | .error _ => pure false
    | .ok _ => pure true
  else pure false

def descend (attempt : Attempt) (use : Use) (create : Bool) : Path → Path → Run (Option (Path × String))
  | _, [] => pure none
  | directory, cursor :: rest =>
    if badComponent cursor then pure none
    else if rest = [] then pure (some (directory, cursor))
    else do
      if ← enter attempt use create (directory ++ [cursor]) then
        descend attempt use create (directory ++ [cursor]) rest
      else pure none

def actionParent (attempt : Attempt) (use : Use) (root relative : Path) (create : Bool) : Run (Option (Path × String)) :=
  if textLength relative > pathMax then pure none
  else do
    match ← ask attempt (.dup use) with
    | .error _ => pure none
    | .ok _ => descend attempt use create root relative

def hashOf (file : File) : String :=
  Sha256.hex (Sha256.digest file.content)

def readAll (attempt : Attempt) (path : Path) : Nat → Nat → Run Bool
  | offset, 0 => do
    match ← ask attempt (.read path offset) with
    | .error _ => pure false
    | .ok _ => pure true
  | offset, left + 1 => do
    match ← ask attempt (.read path offset) with
    | .error _ => pure false
    | .ok _ => readAll attempt path (offset + 1) left

def actionHashFd (attempt : Attempt) (path : Path) (id : FileId) (expected : String) : Run Bool := do
  match ← ask attempt (.lseek path) with
  | .error _ => pure false
  | .ok _ =>
    let folder ← look
    if ← readAll attempt path 0 (folder.files id).content.length then
      pure (decide (hashOf (folder.files id) = expected))
    else pure false

structure CopyPlaces where
  root : Path
  source : Path
  destination : Path
  deriving DecidableEq

def relativeTo (env : Env) (base path : Path) : Path :=
  if base = [""] then path else if path = base then env.pastEnd else path.drop base.length

def choosePlaces (env : Env) (rootAbs rootInput sourceAbs destinationAbs : Path) : Option CopyPlaces :=
  if (!insideRootAbs rootAbs sourceAbs && !insideRootAbs rootInput sourceAbs) ||
      (!insideRootAbs rootAbs destinationAbs && !insideRootAbs rootInput destinationAbs) ||
      sourceAbs == destinationAbs then none
  else
    let srcBase := if insideRootAbs rootAbs sourceAbs then rootAbs else rootInput
    let dstBase := if insideRootAbs rootAbs destinationAbs then rootAbs else rootInput
    some { root := if rootAbs = [""] then [] else rootAbs, source := relativeTo env srcBase sourceAbs,
           destination := relativeTo env dstBase destinationAbs }

def copyPlaces (attempt : Attempt) (env : Env) (root src dst : PathArg) : Run (Option CopyPlaces) := do
  match ← realpath attempt env .root root with
  | .error _ => pure none
  | .ok rootAbs =>
  match ← makeAbsolutePath attempt env .root root with
  | none => pure none
  | some rootInput =>
  match ← makeAbsolutePath attempt env .source src with
  | none => pure none
  | some sourceAbs =>
  match ← makeAbsolutePath attempt env .destination dst with
  | none => pure none
  | some destinationAbs => pure (choosePlaces env rootAbs rootInput sourceAbs destinationAbs)

def reserved (relative : Path) : Bool :=
  match relative with
  | [] => false
  | first :: _ => ".samosa-actions".toList.isPrefixOf first.toList

structure CopyNames where
  actions : Path
  receipt : Path
  lock : Path
  temporary : Path
  destination : Path

def copyNames (attempt : Attempt) (operationId : String) (anchor destination : Path × String) : CopyNames where
  actions := anchor.1
  receipt := anchor.1 ++ [anchor.2]
  lock := anchor.1 ++ [operationId ++ ".lock"]
  temporary := anchor.1 ++ [operationId ++ "-" ++ toString attempt.pid ++ ".partial"]
  destination := destination.1 ++ [destination.2]

def publishCopy (attempt : Attempt) (names : CopyNames) : Run CopyResult := do
  match ← perform attempt (.link names.receipt names.destination) (Folder.link names.receipt names.destination) with
  | .error errno => pure (notApplied (if errno = .eexist then "dest_exists" else "copy_publish_failed"))
  | .ok _ =>
  match ← ask attempt (.fsync names.destination) with
  | .error _ => pure (notApplied "copy_sync_failed")
  | .ok _ => pure { applied := true, already := false, reason := none }

def copyBytes (attempt : Attempt) (source temporary : Path) (stage : FileId) : Nat → List UInt8 → Run (Option String)
  | offset, [] => do
    match ← ask attempt (.read source offset) with
    | .error _ => pure (some "cannot_read_src")
    | .ok _ => pure none
  | offset, byte :: rest => do
    match ← ask attempt (.read source offset) with
    | .error _ => pure (some "cannot_read_src")
    | .ok _ =>
    match ← perform attempt (.write temporary offset) (Folder.write stage byte attempt.now) with
    | .error _ => pure (some "cannot_write_copy")
    | .ok _ => copyBytes attempt source temporary stage (offset + 1) rest

def fillStage (attempt : Attempt) (names : CopyNames) (source : Path) (before : FileId) (stage : FileId)
    (expected : Expected) (expectedHash : String) : Run (Option String) := do
  let folder ← look
  let file := folder.files before
  match ← copyBytes attempt source names.temporary stage 0 file.content with
  | some reason => pure (some reason)
  | none =>
  if file.content.length ≠ expected.size ∨ hashOf file ≠ expectedHash then pure (some "changed_during_copy")
  else
  match ← ask attempt (.refstat source) with
  | .error _ => pure (some "changed_during_copy")
  | .ok _ =>
  let after ← look
  if (after.files before).content.length ≠ file.content.length ∨ (after.files before).mtime ≠ file.mtime then
    pure (some "changed_during_copy")
  else
  match ← perform attempt (.fchmod names.temporary) (Folder.fchmod stage (file.mode &&& 0o777)) with
  | .error _ => pure (some "copy_publish_failed")
  | .ok _ =>
  match ← ask attempt (.fsync names.temporary) with
  | .error _ => pure (some "copy_publish_failed")
  | .ok _ =>
  match ← perform attempt (.rename names.temporary names.receipt) (Folder.rename names.temporary names.receipt) with
  | .error _ => pure (some "copy_publish_failed")
  | .ok _ =>
  match ← ask attempt (.fsync names.actions) with
  | .error _ => pure (some "copy_publish_failed")
  | .ok _ => pure none

def sourceChanged (expected : Expected) (id : FileId) (file : File) : Bool :=
  file.content.length != expected.size || id.dev != expected.dev || id.ino != expected.ino || !expected.mtime file.mtime

def openSource (attempt : Attempt) (root relative : Path) (expected : Expected) : Run (Option (Path × FileId)) := do
  match ← actionParent attempt .source root relative false with
  | none => pure none
  | some (directory, leaf) =>
  match ← perform attempt (.openFile (directory ++ [leaf])) (Folder.openRead (directory ++ [leaf])) with
  | .error _ => pure none
  | .ok node =>
  match ← ask attempt (.fstat (directory ++ [leaf])) with
  | .error _ => pure none
  | .ok _ =>
  let folder ← look
  match node with
  | .regular id =>
    pure (if sourceChanged expected id (folder.files id) then none else some (directory ++ [leaf], id))
  | _ => pure none

def publishStage (attempt : Attempt) (names : CopyNames) (source : Path) (before : FileId) (stage : FileId)
    (expected : Expected) (expectedHash : String) : Run CopyResult := do
  match ← fillStage attempt names source before stage expected expectedHash with
  | some reason => pure (notApplied reason)
  | none => publishCopy attempt names

def stageCopy (attempt : Attempt) (names : CopyNames) (root relative : Path) (expected : Expected)
    (expectedHash : String) : Run CopyResult := do
  match ← openSource attempt root relative expected with
  | none => pure (notApplied "changed_since_scan")
  | some (source, before) =>
  match ← perform attempt (.openFile names.temporary) (Folder.openExclusive names.temporary 0o600 attempt.now) with
  | .error _ => pure (notApplied "cannot_create_copy")
  | .ok stage =>
  let result ← publishStage attempt names source before stage expected expectedHash
  let _ ← perform attempt (.unlink names.temporary) (Folder.unlink names.temporary)
  pure result

def removeReceipt (attempt : Attempt) (names : CopyNames) (already : Bool) : Run CopyResult := do
  match ← perform attempt (.unlink names.receipt) (Folder.unlink names.receipt) with
  | .error _ => pure (notApplied "receipt_cleanup_failed")
  | .ok _ =>
  match ← ask attempt (.fsync names.actions) with
  | .error _ => pure (notApplied "receipt_cleanup_failed")
  | .ok _ => pure { applied := true, already := already, reason := none }

def withReceipt (attempt : Attempt) (names : CopyNames) (undo : Bool) (receipt : FileId) (destination : Option Node) :
    Run CopyResult :=
  match destination with
  | some node =>
    if node ≠ .regular receipt then pure (notApplied "destination_replaced")
    else if undo then do
      match ← perform attempt (.unlink names.destination) (Folder.unlink names.destination) with
      | .error _ => pure (notApplied "unlink_failed")
      | .ok _ =>
      match ← ask attempt (.fsync names.destination) with
      | .error _ => pure (notApplied "unlink_failed")
      | .ok _ => removeReceipt attempt names false
    else pure { applied := true, already := true, reason := none }
  | none => if undo then removeReceipt attempt names true else publishCopy attempt names

inductive Receipt
  | missing
  | changed
  | held (id : FileId)

def openReceipt (attempt : Attempt) (names : CopyNames) (expectedHash : String) : Run Receipt := do
  match ← perform attempt (.openFile names.receipt) (Folder.openRead names.receipt) with
  | .error _ => pure .missing
  | .ok node =>
  match ← ask attempt (.fstat names.receipt) with
  | .error _ => pure .changed
  | .ok _ =>
  match node with
  | .regular id =>
    if ← actionHashFd attempt names.receipt id expectedHash then pure (.held id) else pure .changed
  | _ => pure .changed

def copyLocked (attempt : Attempt) (names : CopyNames) (root relative : Path) (expected : Expected)
    (expectedHash : String) (undo : Bool) : Run CopyResult := do
  let found ← perform attempt (.lstat .destination names.destination) (Folder.lstat names.destination)
  match ← openReceipt attempt names expectedHash with
  | .changed => pure (notApplied "copy_receipt_changed")
  | .held receipt => withReceipt attempt names undo receipt found.toOption
  | .missing =>
    if undo then
      pure (if found.toOption.isNone then { applied := true, already := true, reason := none }
        else notApplied "copy_receipt_missing")
    else if found.toOption.isSome then pure (notApplied "dest_exists")
    else stageCopy attempt names root relative expected expectedHash

def operationIdChar (c : Char) : Bool :=
  ('a' ≤ c && c ≤ 'z') || ('A' ≤ c && c ≤ 'Z') || ('0' ≤ c && c ≤ '9') || c == '-'

def copyInRoot (attempt : Attempt) (places : CopyPlaces) (operationId : String) (expected : Expected)
    (expectedHash : String) (undo : Bool) : Run CopyResult := do
  match ← perform attempt .openRoot (Folder.openDirectory places.root) with
  | .error _ => pure (notApplied "folder_unavailable")
  | .ok _ =>
  let anchor ← actionParent attempt .receipt places.root [".samosa-actions", operationId] (!undo)
  let destination ← actionParent attempt .destination places.root places.destination (!undo)
  match anchor, destination with
  | some anchor, some destination =>
    let names := copyNames attempt operationId anchor destination
    match ← perform attempt (.openFile names.lock) (Folder.openCreate names.lock 0o600 attempt.now) with
    | .error _ => pure (notApplied "lock_failed")
    | .ok _ =>
    match ← ask attempt (.flock names.lock) with
    | .error _ => pure (notApplied "lock_failed")
    | .ok _ => copyLocked attempt names places.root places.source expected expectedHash undo
  | _, _ => pure (notApplied "cannot_open_destination")

structure CopyRequest where
  places : CopyPlaces
  operationId : String
  expectedHash : String
  deriving DecidableEq

def checkCopy (attempt : Attempt) (env : Env) (args : CopyArgs) : Run (Except String CopyRequest) :=
  match args.root, args.src, args.dst, args.operationId, args.expectedHash with
  | some root, some src, some dst, some operationId, some expectedHash =>
    if operationId = "" ∨ operationId.utf8ByteSize > 100 ∨ expectedHash.utf8ByteSize ≠ 64 ∨
        !args.haveSize ∨ !args.haveMtime ∨ !args.haveDev ∨ !args.haveIno ∨
        hasDotdotComponent src ∨ hasDotdotComponent dst then pure (.error "bad_args")
    else if !operationId.toList.all operationIdChar then pure (.error "bad_operation_id")
    else do
      match ← copyPlaces attempt env root src dst with
      | none => pure (.error "outside_jail")
      | some places =>
        if reserved places.destination ∨ reserved places.source then pure (.error "reserved_path")
        else pure (.ok { places, operationId, expectedHash })
  | _, _, _, _, _ => pure (.error "bad_args")

def commandCopy (attempt : Attempt) (env : Env) (args : CopyArgs) (undo : Bool) : Run CopyResult := do
  match ← checkCopy attempt env args with
  | .error reason => pure (notApplied reason)
  | .ok request =>
    copyInRoot attempt request.places request.operationId args.expected request.expectedHash undo

end SamosaChat.Fs
