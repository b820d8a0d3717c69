import SamosaChat.Lib.Crash
import Mathlib.Data.List.Basic

set_option autoImplicit false

namespace SamosaChat.Fs

open Crash Function

-- A path is the components between its slashes, as they are written: "/a//b/" is a, "", b, "".
-- The names of the folder are the paths without empty, "." and ".." components; [] is "/".
abbrev Path := List String

structure FileId where
  dev : Nat
  ino : Nat
  deriving DecidableEq

structure File where
  content : List UInt8
  mtime : Int
  mode : Nat
  deriving DecidableEq

inductive Node
  | directory
  | regular (id : FileId)
  | symlink (absolute : Bool) (target : Path)
  | special
  deriving DecidableEq

inductive Errno
  | enoent
  | eexist
  | exdev
  | other
  deriving DecidableEq

inductive Fault
  | exdev
  | other
  deriving DecidableEq

def Fault.errno : Fault → Errno
  | .exdev => .exdev
  | .other => .other

structure Folder where
  names : Path → Option Node
  files : FileId → File
  dev : Nat
  next : Nat
  unused : ∀ path id, names path = some (.regular id) → id.ino < next

namespace Folder

def isDirectory (folder : Folder) (path : Path) : Bool :=
  path.isEmpty || folder.names path == some .directory

def bind (folder : Folder) (path : Path) (node : Option Node)
    (known : ∀ id, node = some (.regular id) → id.ino < folder.next) : Folder where
  names := Function.update folder.names path node
  files := folder.files
  dev := folder.dev
  next := folder.next
  unused := by
    intro p id here
    by_cases same : p = path
    · rw [same, Function.update_self] at here
      exact known id here
    · rw [Function.update_of_ne same] at here
      exact folder.unused p id here

def create (folder : Folder) (path : Path) (mode : Nat) (now : Int) : Folder where
  names := Function.update folder.names path (some (.regular ⟨folder.dev, folder.next⟩))
  files := Function.update folder.files ⟨folder.dev, folder.next⟩ { content := [], mtime := now, mode := mode }
  dev := folder.dev
  next := folder.next + 1
  unused := by
    intro p id here
    by_cases same : p = path
    · rw [same, Function.update_self] at here
      cases here
      exact Nat.lt_succ_self _
    · rw [Function.update_of_ne same] at here
      exact Nat.lt_succ_of_lt (folder.unused p id here)

def modify (folder : Folder) (id : FileId) (change : File → File) : Folder :=
  { folder with files := Function.update folder.files id (change (folder.files id)) }

-- The system calls, each on the name it is given, with no component followed.

abbrev Outcome (α : Type) := Except Errno α × Folder

def lstat (path : Path) (folder : Folder) : Outcome Node :=
  match folder.names path with
  | some node => (.ok node, folder)
  | none => (.error .enoent, folder)

def openDirectory (path : Path) (folder : Folder) : Outcome Unit :=
  if folder.isDirectory path then (.ok (), folder) else (.error .other, folder)

-- O_RDONLY | O_NOFOLLOW | O_NONBLOCK
def openRead (path : Path) (folder : Folder) : Outcome Node :=
  match folder.names path with
  | none => (.error .enoent, folder)
  | some (.symlink _ _) => (.error .other, folder)
  | some node => (.ok node, folder)

def openCreate (path : Path) (mode : Nat) (now : Int) (folder : Folder) : Outcome Unit :=
  match folder.names path with
  | none => (.ok (), folder.create path mode now)
  | some .directory => (.error .other, folder)
  | some (.symlink _ _) => (.error .other, folder)
  | some _ => (.ok (), folder)

-- O_WRONLY | O_CREAT | O_EXCL | O_NOFOLLOW
def openExclusive (path : Path) (mode : Nat) (now : Int) (folder : Folder) : Outcome FileId :=
  match folder.names path with
  | none => (.ok ⟨folder.dev, folder.next⟩, folder.create path mode now)
  | some _ => (.error .eexist, folder)

def mkdir (path : Path) (folder : Folder) : Outcome Unit :=
  match folder.names path with
  | none => (.ok (), folder.bind path (some .directory) (by simp))
  | some _ => (.error .eexist, folder)

def write (id : FileId) (byte : UInt8) (now : Int) (folder : Folder) : Outcome Unit :=
  (.ok (), folder.modify id fun file => { file with content := file.content ++ [byte], mtime := now })

def fchmod (id : FileId) (mode : Nat) (folder : Folder) : Outcome Unit :=
  (.ok (), folder.modify id fun file => { file with mode := mode })

def link (old new : Path) (folder : Folder) : Outcome Unit :=
  match folder.names new with
  | some _ => (.error .eexist, folder)
  | none =>
    match here : folder.names old with
    | none => (.error .enoent, folder)
    | some .directory => (.error .other, folder)
    | some node => (.ok (), folder.bind new (some node) fun id same => folder.unused old id (here.trans same))

def unlink (path : Path) (folder : Folder) : Outcome Unit :=
  match folder.names path with
  | none => (.error .enoent, folder)
  | some .directory => (.error .other, folder)
  | some _ => (.ok (), folder.bind path none (by simp))

def rename (old new : Path) (folder : Folder) : Outcome Unit :=
  match here : folder.names old with
  | none => (.error .enoent, folder)
  | some node =>
    if folder.names new = some .directory then (.error .other, folder)
    else if folder.names new = some node then (.ok (), folder)
    else
      (.ok (), (folder.bind new (some node) fun id same => folder.unused old id (here.trans same)).bind old none
        (by simp))

-- What each of the calls can do.

structure Renamed (f g : Folder) (names : Path → Option Node) : Prop where
  names : g.names = names
  files : g.files = f.files
  next : g.next = f.next
  dev : g.dev = f.dev

theorem link_cases (old new : Path) (f : Folder) : (∃ errno, link old new f = (.error errno, f)) ∨
      ∃ node, f.names new = none ∧ f.names old = some node ∧ node ≠ .directory ∧ (link old new f).1 = .ok () ∧
        Renamed f (link old new f).2 (update f.names new (some node)) := by
  unfold link
  split
  · exact .inl ⟨_, rfl⟩
  · rename_i free
    split
    · exact .inl ⟨_, rfl⟩
    · exact .inl ⟨_, rfl⟩
    · rename_i node other here
      exact .inr ⟨node, free, here, other, rfl, rfl, rfl, rfl, rfl⟩

theorem unlink_cases (path : Path) (f : Folder) : (∃ errno, unlink path f = (.error errno, f)) ∨
      ∃ node, f.names path = some node ∧ node ≠ .directory ∧ (unlink path f).1 = .ok () ∧
        Renamed f (unlink path f).2 (update f.names path none) := by
  unfold unlink
  split
  · exact .inl ⟨_, rfl⟩
  · exact .inl ⟨_, rfl⟩
  · rename_i node other here
    exact .inr ⟨node, here, other, rfl, rfl, rfl, rfl, rfl⟩

theorem rename_cases (old new : Path) (f : Folder) : (∃ errno, rename old new f = (.error errno, f)) ∨
      ∃ node, f.names old = some node ∧ (rename old new f).1 = .ok () ∧ (f.names new = some node ∧ (rename old new f).2 = f ∨
          f.names new ≠ some node ∧ Renamed f (rename old new f).2 (update (update f.names new (some node)) old none)) := by
  unfold rename
  split
  · exact .inl ⟨_, rfl⟩
  · rename_i node here
    by_cases directory : f.names new = some .directory
    · rw [if_pos directory]
      exact .inl ⟨_, rfl⟩
    rw [if_neg directory]
    by_cases same : f.names new = some node
    · rw [if_pos same]
      exact .inr ⟨node, here, rfl, .inl ⟨same, rfl⟩⟩
    · rw [if_neg same]
      exact .inr ⟨node, here, rfl, .inr ⟨same, rfl, rfl, rfl, rfl⟩⟩

theorem link_ok {old new : Path} {f : Folder} {id : FileId} (here : f.names old = some (.regular id)) (free : f.names new = none) :
    (link old new f).1 = .ok () ∧ Renamed f (link old new f).2 (update f.names new (some (.regular id))) := by
  rcases link_cases old new f with ⟨errno, failed⟩ | ⟨node, _, same, _, result, renamed⟩
  · exfalso
    unfold link at failed
    split at failed
    · rename_i taken
      cases free.symm.trans taken
    · split at failed
      · rename_i absent
        cases here.symm.trans absent
      · rename_i directory
        cases here.symm.trans directory
      · cases failed
  · cases here.symm.trans same
    exact ⟨result, renamed⟩

theorem unlink_ok {path : Path} {f : Folder} {id : FileId} (here : f.names path = some (.regular id)) :
    (unlink path f).1 = .ok () ∧ Renamed f (unlink path f).2 (update f.names path none) := by
  rcases unlink_cases path f with ⟨errno, failed⟩ | ⟨node, _, _, result, renamed⟩
  · exfalso
    unfold unlink at failed
    split at failed
    · rename_i absent
      cases here.symm.trans absent
    · rename_i directory
      cases here.symm.trans directory
    · cases failed
  · exact ⟨result, renamed⟩

theorem rename_ok {old new : Path} {f : Folder} {id : FileId} (here : f.names old = some (.regular id))
    (over_ : f.names new ≠ some .directory) : (rename old new f).1 = .ok () := by
  rcases rename_cases old new f with ⟨errno, failed⟩ | ⟨node, _, result, _⟩
  · exfalso
    unfold rename at failed
    split at failed
    · rename_i absent
      cases here.symm.trans absent
    · rw [if_neg over_] at failed
      split at failed
      · cases failed
      · cases failed
  · exact result

structure Created (f g : Folder) (path : Path) (mode : Nat) : Prop where
  absent : f.names path = none
  names : g.names = Function.update f.names path (some (.regular ⟨f.dev, f.next⟩))
  empty : (g.files ⟨f.dev, f.next⟩).content = []
  mode : (g.files ⟨f.dev, f.next⟩).mode = mode
  files : ∀ id, id ≠ ⟨f.dev, f.next⟩ → g.files id = f.files id
  next : g.next = f.next + 1
  dev : g.dev = f.dev

theorem create_created {path : Path} {mode : Nat} {now : Int} {f : Folder} (absent : f.names path = none) :
    Created f (f.create path mode now) path mode :=
  ⟨absent, rfl, by simp [create], by simp [create], fun id other => by simp [create, update_of_ne other], rfl, rfl⟩

theorem open_create_cases (path : Path) (mode : Nat) (now : Int) (f : Folder) :
    (openCreate path mode now f).2 = f ∨ Created f (openCreate path mode now f).2 path mode := by
  unfold openCreate
  split
  · rename_i absent
    exact .inr (create_created absent)
  · exact .inl rfl
  · exact .inl rfl
  · exact .inl rfl

theorem open_exclusive_cases (path : Path) (mode : Nat) (now : Int) (f : Folder) :
    (∃ errno, openExclusive path mode now f = (.error errno, f)) ∨ (openExclusive path mode now f).1 = .ok ⟨f.dev, f.next⟩ ∧
        Created f (openExclusive path mode now f).2 path mode := by
  unfold openExclusive
  split
  · rename_i absent
    exact .inr ⟨rfl, create_created absent⟩
  · exact .inl ⟨_, rfl⟩

theorem open_read_names (path : Path) (f : Folder) :
    (openRead path f).2 = f ∧ ∀ node, (openRead path f).1 = .ok node → f.names path = some node := by
  unfold openRead
  split
  · exact ⟨rfl, by simp⟩
  · exact ⟨rfl, by simp⟩
  · rename_i node _ here
    refine ⟨rfl, fun node' same => ?_⟩
    cases same
    exact here

theorem lstat_names (path : Path) (f : Folder) : (lstat path f).2 = f ∧ (lstat path f).1.toOption = f.names path := by
  unfold lstat
  split
  · rename_i node here
    exact ⟨rfl, here.symm⟩
  · rename_i absent
    exact ⟨rfl, absent.symm⟩

end Folder

-- Who asks: a call is told apart from another one on the same path by what it is for.
inductive Use
  | root
  | source
  | destination
  | receipt
  deriving DecidableEq

inductive Call
  | realpath (use : Use) (path : Path)
  | getcwd (use : Use)
  | access (path : Path)
  | dup (use : Use)
  | openRoot
  | mkdir (use : Use) (path : Path)
  | openDirectory (use : Use) (path : Path)
  | lstat (use : Use) (path : Path)
  | stat (use : Use)
  | remove (use : Use)
  | join
  | openFile (path : Path)
  | fstat (path : Path)
  | refstat (path : Path)
  | lseek (path : Path)
  | read (path : Path) (offset : Nat)
  | write (path : Path) (offset : Nat)
  | fchmod (path : Path)
  | fsync (path : Path)
  | flock (path : Path)
  | link (old new : Path)
  | rename (old new : Path)
  | unlink (path : Path)
  deriving DecidableEq

structure Attempt where
  fate : Call → Fate Fault
  pid : Nat
  now : Int

def Attempt.undisturbed (attempt : Attempt) : Prop :=
  ∀ c, attempt.fate c = .allowed

abbrev Run (α : Type) := Prog Folder α

def perform {α : Type} (attempt : Attempt) (c : Call) (act : Folder → Except Errno α × Folder) :
    Run (Except Errno α) :=
  call (attempt.fate c) (fun fault => .error fault.errno) act

def ask (attempt : Attempt) (c : Call) : Run (Except Errno Unit) :=
  perform attempt c fun folder => (.ok (), folder)

section Steps

variable {α β : Type} {attempt : Attempt} {c : Call} {act : Folder → Except Errno α × Folder}
    {next : Except Errno α → Run β} {post : β → Folder → Prop} {crash : Folder → Prop} {folder : Folder}

theorem ends_step (stopped : crash folder)
    (refused : ∀ errno, errno ≠ .enoent → errno ≠ .eexist → Ends (next (.error errno)) post crash folder)
    (allowed : attempt.fate c = .allowed → Ends (next (act folder).1) post crash (act folder).2) :
    Ends (perform attempt c act >>= next) post crash folder := by
  rw [ends_bind]
  refine ends_call_of allowed (fun fault => refused _ ?_ ?_) stopped
  · cases fault <;> simp [Fault.errno]
  · cases fault <;> simp [Fault.errno]

theorem ends_undisturbed (undisturbed : attempt.undisturbed) :
    Ends (perform attempt c act >>= next) post crash folder ↔ Ends (next (act folder).1) post crash (act folder).2 := by
  rw [ends_bind, perform, ends_call]
  simp [undisturbed c]

end Steps

end SamosaChat.Fs
