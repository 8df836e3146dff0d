/-
SmallWeb/FileTree.lean

Files by their paths.

A path is a sequence of names, read from the working directory; empty names and
single dots are not part of it.  Two dots lead to the directory above, but only
from a directory that exists.  Paths that lead out of the working directory are
kept apart by their first name, two dots or a slash.
-/
import SmallWeb.Fault

namespace SmallWeb

/-! ### Paths -/

/-- A path, name by name. -/
abbrev Path := List (List Char)

namespace Path

/-- The directory above. -/
def above : List Char := ['.', '.']

/-- The beginning of an absolute path. -/
def root : List Char := ['/']

/-- The path that a text denotes. -/
def ofText (s : List Char) : Path :=
  let names := (Text.splitOn '/' s).filter fun n => !n.isEmpty && n != ['.']
  if s.head? = some '/' then root :: names else names

/-- The text of a path below the working directory. -/
def text (p : Path) : List Char := Text.joinWith ['/'] p

/-- Whether a path leads out of the working directory. -/
def isOutside (p : Path) : Bool := p.head? == some above || p.head? == some root

/-- The path of a name in a directory. -/
def step (directory : Path) (name : List Char) : Path :=
  if name = above then
    match directory.getLast? with
    | none => [above]
    | some last =>
      if last = above then directory ++ [above]
      else if last = root then directory
      else directory.dropLast
  else directory ++ [name]

end Path

/-! ### Trees -/

/-- Files and directories.  The directories above a file need not be listed. -/
structure FileTree where
  directories : List Path := []
  files : List (Path × ByteArray) := []

/-- What is found at a path. -/
inductive FileEntry
  | file (content : ByteArray)
  | directory
  | missing

namespace FileTree

/-- Whether a path is a directory without being listed. -/
def isImplied (t : FileTree) (p : Path) : Bool :=
  p.all (· == Path.above) || p == [Path.root]
    || t.files.any fun f => p.isPrefixOf f.1 && p.length < f.1.length

/-- What is at a path that has been resolved. -/
def entry (t : FileTree) (p : Path) : FileEntry :=
  match t.files.find? fun f => f.1 == p with
  | some f => .file f.2
  | none => if t.isImplied p || t.directories.contains p then .directory else .missing

/-- Follows a name from where a directory must be. -/
def follow (t : FileTree) (p : Path) (name : List Char) : Except Fault Path :=
  match t.entry p with
  | .directory => .ok (p.step name)
  | .file _ => .error .notDirectory
  | .missing => .error .fileNotFound

/-- The content of a file. -/
def read (t : FileTree) (p : Path) : Except Fault ByteArray := do
  match t.entry (← p.foldlM t.follow []) with
  | .file content => .ok content
  | .directory => .error .isDirectory
  | .missing => .error .fileNotFound

/-- Makes the directories on a path that do not exist, and resolves it. -/
def makeDirectories (t : FileTree) (here : Path) : Path → Except Fault (FileTree × Path)
  | [] => .ok (t, here)
  | name :: names => do
    let p ← t.follow here name
    match t.entry p, names with
    | .file _, [] => .error .fileExists
    | .missing, names => makeDirectories { t with directories := p :: t.directories } p names
    | _, names => makeDirectories t p names

/-- The tree with a file at a resolved path. -/
def put (t : FileTree) (p : Path) (content : ByteArray) : FileTree :=
  { t with files := (p, content) :: t.files.filter fun f => f.1 != p }

/-- Writes a file, with the directories above it. -/
def write (t : FileTree) (p : Path) (content : ByteArray) : Except Fault FileTree := do
  match p.getLast? with
  | none => .error .isDirectory
  | some name =>
    let (t, directory) ← t.makeDirectories [] p.dropLast
    match t.entry (directory.step name) with
    | .directory => .error .isDirectory
    | _ => .ok (t.put (directory.step name) content)

/-- The files below the working directory that are new in a later tree or have
another content there, in the order of their paths' texts. -/
def changes (before after : FileTree) : List (List Char × ByteArray) :=
  let changed := after.files.filter fun f =>
    !f.1.isOutside && match before.files.find? fun g => g.1 == f.1 with
      | some g => g.2 != f.2
      | none => true
  (changed.map fun f => (f.1.text, f.2)).mergeSort fun a b => Text.inOrder a.1 b.1

end FileTree

end SmallWeb
