import SamosaChat.Json.Value
import SamosaChat.Lib.Sha256

set_option autoImplicit false

namespace SamosaChat.Install

open Utf8 Text Binary64 Json Buffers

def getStr (o : Jval) (key : String) : Option Bytes :=
  match jsonGet o (utf8 key) with
  | some (.str str) => some str
  | _ => none

def getNum (o : Jval) (key : String) : Option Double :=
  match jsonGet o (utf8 key) with
  | some (.num num) => some num
  | _ => none

def getArr (o : Jval) (key : String) : Option (List Jval) :=
  match jsonGet o (utf8 key) with
  | some (.arr kids) => some kids
  | _ => none

def isObj : Jval → Bool
  | .obj _ => true
  | _ => false

def hex64Lower (s : Bytes) : Bool :=
  s.length == 64 && s.all fun c => isDigit c || 0x61 ≤ c && c ≤ 0x66

-- The tokens of strtok_r(path, "/").
def segments (path : Bytes) : List Bytes :=
  (path.splitOn 0x2f).filter (· ≠ [])

def installPathIsSafe (path : Bytes) : Bool :=
  path.head? != some 0x2f && segments path != [] && (segments path).all fun tok => tok != utf8 "." && tok != utf8 ".."

-- The loopback exception is for tests only, behind an environment variable.
def artifactUrlIsTrusted (url : Bytes) : Bool :=
  url == [] || (utf8 "https://huggingface.co/").isPrefixOf url

def backendKinds : List Bytes :=
  ["qwen_native", "llama_cpp", "whisper_cpp", "mlx_native", "mlx_vision_native", "pocket_tts", "kokoro_tts",
    "browser_tts", "moss_tts", "kitten_tts"].map utf8

def negative : Double → Bool
  | .nan => false
  | .inf negative => negative
  | .finite negative magnitude => negative && magnitude.units != 0

def checkArtifact (seenPaths : List Bytes) (artifact : Jval) : Except String (List Bytes) :=
  if isObj artifact = false then .error "artifact is not an object"
  else if (getNum artifact "bytes").all negative then .error "malformed artifact bytes"
  else if (getStr artifact "sha256").any hex64Lower = false then .error "malformed artifact sha256"
  else
    match getStr artifact "install_path" with
    | none => .error "unsafe artifact install_path"
    | some path =>
      if 256 ≤ path.length ∨ installPathIsSafe path = false then .error "unsafe artifact install_path"
      else if 64 ≤ seenPaths.length then .error "too many artifacts"
      else if path ∈ seenPaths then .error "duplicate artifact install_path"
      else if (getStr artifact "url").any fun url => !artifactUrlIsTrusted url then .error "untrusted artifact host"
      else .ok (path :: seenPaths)

structure Seen where
  ids : List Bytes
  paths : List Bytes

def nativePack (entry : Jval) : Bool :=
  getStr entry "provisioning" == some (utf8 "native_pack")

def checkModel (runtimeAbi : Bytes) (seen : Seen) (entry : Jval) : Except String Seen :=
  if isObj entry = false then .error "model entry is not an object"
  else
    match getStr entry "id" with
    | none => .error "model entry missing id"
    | some id =>
      if id = [] then .error "model entry missing id"
      else if 64 ≤ seen.ids.length then .error "too many model entries"
      else if id ∈ seen.ids then .error "duplicate model id"
      else if (getStr entry "backend_kind").all fun kind => !backendKinds.contains kind then
        .error "unknown backend_kind"
      else if getStr entry "required_runtime_abi" ≠ some runtimeAbi then .error "unsupported runtime_abi"
      else
        match getArr entry "artifacts" with
        | none => .error "model entry missing artifacts"
        | some artifacts =>
          if nativePack entry = false ∧ artifacts = [] then .error "model entry missing artifacts"
          else do
            let paths ← artifacts.foldlM checkArtifact seen.paths
            return { ids := (pathCopy 80 id).1.text :: seen.ids, paths := paths }

def catalogValidate (root : Jval) : Except String Unit :=
  if isObj root = false then .error "catalog root is not an object"
  else
    match getStr root "runtime_abi" with
    | none => .error "missing runtime_abi"
    | some runtimeAbi =>
      if runtimeAbi = [] then .error "missing runtime_abi"
      else
        match getArr root "models" with
        | none => .error "missing models array"
        | some models => do
          let _ ← models.foldlM (checkModel runtimeAbi) { ids := [], paths := [] }
          return ()

structure Catalog where
  root : Jval
  accepted : catalogValidate root = .ok ()

def Catalog.models (catalog : Catalog) : List Jval :=
  (getArr catalog.root "models").getD []

def catalogFindModel (catalog : Catalog) (modelId version : Bytes) : Option Jval :=
  catalog.models.find? fun entry => getStr entry "id" == some modelId && getStr entry "version" == some version

structure Artifact where
  name : Option Bytes
  url : Option Bytes
  bytes : Option Double
  sha256 : Option Bytes
  installPath : Option Bytes
deriving DecidableEq

def artifactOf (artifact : Jval) : Artifact where
  name := getStr artifact "name"
  url := getStr artifact "url"
  bytes := getNum artifact "bytes"
  sha256 := getStr artifact "sha256"
  installPath := getStr artifact "install_path"

def artifactsOf (entry : Jval) : List Artifact :=
  ((getArr entry "artifacts").getD []).map artifactOf

def sanitizeStagingName (name : Bytes) : Bytes :=
  (name.map fun c => if c = 0x2f then 0x23 else c).take 255

def Artifact.stagingName (artifact : Artifact) : Option Bytes :=
  artifact.name.map sanitizeStagingName

structure Content where
  bytes : Bytes
  hex : Bytes
  hashed : utf8 (Sha256.hex (Sha256.digest bytes)) = hex

-- (double)st_size == bytes->num
def sameSize (size : Nat) : Double → Bool
  | .finite negative magnitude =>
    ofRatio false size 1 == .finite false magnitude && (!negative || magnitude.units == 0)
  | _ => false

def Artifact.sized (artifact : Artifact) (content : Content) : Bool :=
  artifact.bytes.any (sameSize content.bytes.length)

structure Artifact.Matches (artifact : Artifact) (content : Content) : Prop where
  sized : artifact.sized content = true
  hash : artifact.sha256 = some content.hex

end SamosaChat.Install
