import SamosaChat.Durable.SmallFile
import SamosaChat.Lib.Sha256

set_option autoImplicit false

namespace SamosaChat.Attachments

open Utf8 Text Durable

structure AttachmentAudioInfo where
  durationMicros : Nat
  container : Bytes
  codec : Bytes
  selectedStream : Nat
  compressed : Bool

structure AttachmentMeta where
  mediaType : Bytes
  filename : Bytes
  bytes : Nat
  imageCap : Bool
  videoCap : Bool
  audioCap : Bool
  documentCap : Bool
  audio : Option AttachmentAudioInfo

-- <id>.json
structure MetaFile where
  attachment : AttachmentMeta
  createdAt : Stamp
  referencedAt : Option Stamp
  mtime : Nat

def attachmentHashHex (content : Bytes) : String :=
  Sha256.hex (Sha256.digest content)

def attachmentShard (id : String) : List Char :=
  id.toList.take 2

def docxMediaType : Bytes :=
  utf8 "application/vnd.openxmlformats-officedocument.wordprocessingml.document"

def attachmentBlobExtension (mediaType : Bytes) : String :=
  if mediaType = utf8 "image/png" then ".png"
  else if mediaType = utf8 "image/jpeg" then ".jpg"
  else if mediaType = utf8 "image/webp" then ".webp"
  else if mediaType = utf8 "image/gif" then ".gif"
  else if mediaType = utf8 "application/pdf" then ".pdf"
  else if mediaType = docxMediaType then ".docx"
  else if mediaType = utf8 "video/mp4" then ".mp4"
  else if mediaType = utf8 "video/quicktime" then ".mov"
  else if mediaType = utf8 "audio/wav" then ".wav"
  else if mediaType = utf8 "audio/mpeg" then ".mp3"
  else if mediaType = utf8 "audio/mp4" then ".m4a"
  else if mediaType = utf8 "text/html" then ".html"
  else ".bin"

-- ATTACHMENT_GC_GRACE_SECONDS
def graceSeconds : Nat := 24 * 3600

-- What an upload was found to be. The caller of attachment_publish sniffs it.
structure Sniffed where
  mediaType : Bytes
  filename : Bytes
  imageCap : Bool
  videoCap : Bool
  audio : Option AttachmentAudioInfo
  documentCap : Bool

structure Upload where
  content : Bytes
  sniffed : Sniffed
  id : String
  hashed : attachmentHashHex content = id

def Upload.extension (upload : Upload) : String :=
  attachmentBlobExtension upload.sniffed.mediaType

def publishedMeta (upload : Upload) : AttachmentMeta where
  mediaType := upload.sniffed.mediaType
  filename := upload.sniffed.filename
  bytes := upload.content.length
  imageCap := upload.sniffed.imageCap
  videoCap := upload.sniffed.videoCap
  audioCap := upload.sniffed.audio.isSome && !upload.sniffed.videoCap
  documentCap := upload.sniffed.documentCap
  audio := upload.sniffed.audio

def MetaFile.extension (file : MetaFile) : String :=
  attachmentBlobExtension file.attachment.mediaType

inductive Stage
  | idle
  | storing (upload : Upload)
  | stored (upload : Upload)
  | published
  | sweeping (now : Nat)
  | statted (now : Nat) (id : String) (mtime : Nat)
  | expired (now : Nat) (id : String) (mtime : Nat) (mediaType : Bytes)
  | swept (now : Nat) (id : String) (mediaType : Bytes)
  | marking (id : String) (loaded : AttachmentMeta)
  | deleting (id : String) (mediaType : Bytes)
  | deleted (id : String) (mediaType : Bytes)

structure Accepted where
  content : Bytes
  time : Nat
deriving DecidableEq

structure World where
  clock : Nat
  files : String → Option MetaFile
  blobs : String × String → Option Bytes
  locks : List Char → Option Nat
  stages : Nat → Stage
  -- The last accepted upload of an id that was not deleted since, and whether a conversation refers to it.
  uploads : String → Option Accepted
  references : String → Bool
  contents : List Bytes

def empty : World where
  clock := 0
  files := fun _ => none
  blobs := fun _ => none
  locks := fun _ => none
  stages := fun _ => .idle
  uploads := fun _ => none
  references := fun _ => false
  contents := []

inductive Event
  | tick (seconds : Nat)
  | publish (i : Nat) (upload : Upload)
  | writeBlob (i : Nat) (written : Bool)
  | writeMeta (i : Nat) (now : Stamp) (written : Bool)
  | sweep (i : Nat)
  | stat (i : Nat) (id : String)
  | read (i : Nat) (succeeded : Bool)
  | unlinkMeta (i : Nat)
  | unlinkBlob (i : Nat)
  | respond (i : Nat)
  | loadMark (i : Nat) (id : String)
  | mark (i : Nat) (now : Stamp) (written : Bool)
  | loadDelete (i : Nat) (id : String)

def World.stage (world : World) (i : Nat) (stage : Stage) : World :=
  { world with stages := Function.update world.stages i stage }

def World.unlock (world : World) (upload : Upload) : World :=
  { world with locks := Function.update world.locks (attachmentShard upload.id) none }

def World.accept (world : World) (upload : Upload) : World :=
  { world with uploads := Function.update world.uploads upload.id (some ⟨upload.content, world.clock⟩) }

def step (world : World) : Event → World
  | .tick seconds => { world with clock := world.clock + seconds }
  -- attachment_publish and attachment_publish_file, up to the look at the metadata under the lock
  | .publish i upload =>
    match world.stages i, world.locks (attachmentShard upload.id) with
    | .idle, none =>
      let world := { world with contents := upload.content :: world.contents }
      match world.files upload.id with
      | some _ => (world.accept upload).stage i .published
      | none =>
        { world with locks := Function.update world.locks (attachmentShard upload.id) (some i) }.stage i
          (.storing upload)
    | _, _ => world
  | .writeBlob i written =>
    match world.stages i with
    | .storing upload =>
      if written then
        { world with
          blobs := Function.update world.blobs (upload.id, upload.extension) (some upload.content) }.stage i
            (.stored upload)
      else (world.unlock upload).stage i .idle
    | _ => world
  | .writeMeta i now written =>
    match world.stages i with
    | .stored upload =>
      if written then
        (({ world with
          files := Function.update world.files upload.id
            (some ⟨publishedMeta upload, now, none, world.clock⟩) }.accept upload).unlock upload).stage i .published
      else
        ({ world with
          blobs := Function.update world.blobs (upload.id, upload.extension) none }.unlock upload).stage i .idle
    | _ => world
  -- attachment_gc_sweep, entry by entry
  | .sweep i =>
    match world.stages i with
    | .published => world.stage i (.sweeping world.clock)
    | _ => world
  | .stat i id =>
    match world.stages i, world.files id with
    | .sweeping now, some file => world.stage i (.statted now id file.mtime)
    | _, _ => world
  | .read i succeeded =>
    match world.stages i with
    | .statted now id mtime =>
      match world.files id with
      | some file =>
        if succeeded = false ∨ file.referencedAt.isSome = true ∨ now - mtime < graceSeconds then
          world.stage i (.sweeping now)
        else world.stage i (.expired now id mtime file.attachment.mediaType)
      | none => world.stage i (.sweeping now)
    | _ => world
  | .unlinkMeta i =>
    match world.stages i with
    | .expired now id _ mediaType =>
      { world with files := Function.update world.files id none }.stage i (.swept now id mediaType)
    | .deleting id mediaType =>
      { world with
        files := Function.update world.files id none
        uploads := Function.update world.uploads id none
        references := Function.update world.references id false }.stage i (.deleted id mediaType)
    | _ => world
  | .unlinkBlob i =>
    match world.stages i with
    | .swept now id mediaType =>
      { world with
        blobs := Function.update world.blobs (id, attachmentBlobExtension mediaType) none }.stage i (.sweeping now)
    | .deleted id mediaType =>
      { world with blobs := Function.update world.blobs (id, attachmentBlobExtension mediaType) none }.stage i .idle
    | _ => world
  | .respond i =>
    match world.stages i with
    | .published => world.stage i .idle
    | .sweeping _ => world.stage i .idle
    | _ => world
  -- attachment_mark_referenced, up to the lock
  | .loadMark i id =>
    match world.stages i, world.files id with
    | .idle, some file =>
      if file.referencedAt.isSome then world else world.stage i (.marking id file.attachment)
    | _, _ => world
  | .mark i now written =>
    match world.stages i with
    | .marking id loaded =>
      match world.locks (attachmentShard id) with
      | none =>
        if written then
          let createdAt := ((world.files id).map MetaFile.createdAt).getD now
          { world with
            files := Function.update world.files id (some ⟨loaded, createdAt, some now, world.clock⟩)
            references := Function.update world.references id true }.stage i .idle
        else world.stage i .idle
      | some _ => world
    | _ => world
  -- attachments_delete_handler, up to its unlinks
  | .loadDelete i id =>
    match world.stages i, world.files id with
    | .idle, some file =>
      if file.referencedAt.isSome then world else world.stage i (.deleting id file.attachment.mediaType)
    | _, _ => world

-- attachments_get_handler
def get (world : World) (id : String) : Option Bytes :=
  (world.files id).bind fun file => world.blobs (id, file.extension)

end SamosaChat.Attachments
