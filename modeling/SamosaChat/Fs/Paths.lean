import SamosaChat.Fs.Folder

set_option autoImplicit false

namespace SamosaChat.Fs

open Crash

structure PathArg where
  absolute : Bool
  parts : Path

structure Env where
  cwd : Path
  pastEnd : Path

def pathMax : Nat := 4096

def symloopMax : Nat := 40

def textLength (path : Path) : Nat :=
  (path.map fun component => component.utf8ByteSize + 1).sum

-- A resolved path as it is written: the root directory is "/".
def asText (path : Path) : Path :=
  if path = [] then [""] else path

def hasDotdotComponent (path : PathArg) : Bool :=
  path.parts.contains ".."

def insideRootAbs (rootAbs path : Path) : Bool :=
  rootAbs == [""] || rootAbs.isPrefixOf path

-- Looks the components up one after the other from a directory; `follow` goes on at a symbolic link.
@[grind =]
def walkWith (folder : Folder) (follow : Path → Path → Except Errno Path) : Path → Path → Except Errno Path
  | here, [] => .ok here
  | here, component :: rest =>
    if component = "" ∨ component = "." then walkWith folder follow here rest
    else if component = ".." then walkWith folder follow here.dropLast rest
    else
      match folder.names (here ++ [component]) with
      | none => .error .enoent
      | some .directory => walkWith folder follow (here ++ [component]) rest
      | some (.symlink absolute target) => follow (if absolute then [] else here) (target ++ rest)
      | some _ => if rest = [] then .ok (here ++ [component]) else .error .other

variable {folder : Folder} {follow : Path → Path → Except Errno Path} {here rest : Path}

theorem walk_with_skip {component : String} (skip : component = "" ∨ component = ".") :
    walkWith folder follow here (component :: rest) = walkWith folder follow here rest := by
  rw [walkWith, if_pos skip]

theorem walk_with_up : walkWith folder follow here (".." :: rest) = walkWith folder follow here.dropLast rest := by
  rw [walkWith, if_neg (by decide), if_pos rfl]

theorem walk_with_name {component : String} (plain : ¬ (component = "" ∨ component = ".")) (down : component ≠ "..") :
    walkWith folder follow here (component :: rest) =
      match folder.names (here ++ [component]) with
      | none => .error .enoent
      | some .directory => walkWith folder follow (here ++ [component]) rest
      | some (.symlink absolute target) => follow (if absolute then [] else here) (target ++ rest)
      | some _ => if rest = [] then .ok (here ++ [component]) else .error .other := by
  rw [walkWith, if_neg plain, if_neg down]

def walk (folder : Folder) : Nat → Path → Path → Except Errno Path
  | 0 => walkWith folder fun _ _ => .error .other
  | n + 1 => walkWith folder (walk folder n)

def resolve (folder : Folder) (path : Path) : Except Errno Path :=
  walk folder symloopMax [] path

-- The name itself, which need not exist; a symbolic link at the end is not followed.
def locate (folder : Folder) (path : Path) : Except Errno Path :=
  match path.getLast? with
  | none => .ok []
  | some last =>
    if last = "" ∨ last = "." ∨ last = ".." then resolve folder path
    else
      match resolve folder path.dropLast with
      | .error errno => .error errno
      | .ok directory => if folder.isDirectory directory then .ok (directory ++ [last]) else .error .other

def startOf (env : Env) (path : PathArg) : Path :=
  if path.absolute then path.parts else asText env.cwd ++ path.parts

def emptyText (path : PathArg) : Bool :=
  !path.absolute && path.parts == [""]

def realpathOf (env : Env) (folder : Folder) (path : PathArg) : Except Errno Path :=
  if emptyText path then .error .enoent
  else
    match resolve folder (startOf env path) with
    | .error errno => .error errno
    | .ok name => if textLength (asText name) < pathMax then .ok (asText name) else .error .other

def realpath (attempt : Attempt) (env : Env) (use : Use) (path : PathArg) : Run (Except Errno Path) :=
  perform attempt (.realpath use (startOf env path)) fun folder => (realpathOf env folder path, folder)

def absoluteOf (env : Env) (path : PathArg) : Option Path :=
  if emptyText path then none
  else if textLength (startOf env path) < pathMax then some (startOf env path)
  else none

def makeAbsolutePath (attempt : Attempt) (env : Env) (use : Use) (path : PathArg) : Run (Option Path) :=
  if emptyText path || path.absolute then pure (absoluteOf env path)
  else do
    match ← ask attempt (.getcwd use) with
    | .error _ => pure none
    | .ok _ => pure (absoluteOf env path)

theorem make_absolute_ends (attempt : Attempt) (env : Env) (use : Use) (path : PathArg) (f : Folder) :
    Ends (makeAbsolutePath attempt env use path) (fun answer g => g = f ∧ (answer = none ∨ answer = absoluteOf env path))
      (fun g => g = f) f := by
  unfold makeAbsolutePath
  by_cases here : (emptyText path || path.absolute) = true
  · rw [if_pos here]
    exact ⟨rfl, .inr rfl⟩
  · rw [if_neg here]
    exact ends_step rfl (fun _ _ _ => ⟨rfl, .inl rfl⟩) fun _ => ⟨rfl, .inr rfl⟩

theorem make_absolute_undisturbed {attempt : Attempt} (undisturbed : attempt.undisturbed) (env : Env) (use : Use)
    (path : PathArg) (f : Folder) : makeAbsolutePath attempt env use path f = (some (absoluteOf env path), f) := by
  unfold makeAbsolutePath
  by_cases here : (emptyText path || path.absolute) = true
  · rw [if_pos here]
    rfl
  · rw [if_neg here]
    simp [bind, ask, perform, call, undisturbed (.getcwd use), pure]

end SamosaChat.Fs
