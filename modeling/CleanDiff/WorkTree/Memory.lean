import CleanDiff.WorkTree.Basic

/-!
# A working tree in memory

The tree says everything about itself: which files there are, which paths are
links or directories and what a directory lists, and which reads, writes and
listings fail. Only writing changes it, and a failing write changes nothing.
-/

namespace CleanDiff

/-- How a write to a path fails. -/
inductive WriteFault
  | io (reason : IoReason)
  | lock
  deriving DecidableEq, Repr

/-- A working tree in memory. -/
structure MemoryTree where
  /-- The files, each path once. -/
  files : List (Path × Bytes) := []
  symlinks : List Path := []
  /-- The directories with what they list, or why they cannot be listed. -/
  dirs : List (Path × Except IoReason (List Path)) := []
  readFaults : List (Path × IoReason) := []
  writeFaults : List (Path × WriteFault) := []

namespace MemoryTree

/-- The content of a file. -/
def get? (t : MemoryTree) (path : Path) : Option Bytes := t.files.lookup path

/-- Give a file a content, whether it is there or not. -/
def put (t : MemoryTree) (path : Path) (content : Bytes) : MemoryTree :=
  { t with files :=
      if (t.get? path).isSome then
        t.files.map fun f => if f.1 = path then (path, content) else f
      else t.files ++ [(path, content)] }

/-- Take a file away. -/
def erase (t : MemoryTree) (path : Path) : MemoryTree :=
  { t with files := t.files.filter fun f => f.1 ≠ path }

/-- Read a file: its fault, else its content. -/
def read (t : MemoryTree) (path : Path) : Except FileError Bytes :=
  match t.readFaults.lookup path with
  | some reason => .error (.io path reason)
  | none =>
      match t.get? path with
      | some content => .ok content
      | none => .error (.io path .absent)

/-- Write a file, unless the write has a fault. -/
def write (t : MemoryTree) (path : Path) (content : Text) : MemoryTree × Except FileError Unit :=
  match t.writeFaults.lookup path with
  | some (.io reason) => (t, .error (.io path reason))
  | some .lock => (t, .error (.lockFailed path))
  | none => (t.put path (Utf8.encode content), .ok ())

/-- What a directory lists. -/
def list (t : MemoryTree) (dir : Path) : Except FileError (List Path) :=
  match t.dirs.lookup dir with
  | some (.ok files) => .ok files
  | some (.error reason) => .error (.io dir reason)
  | none => .error (.io dir .absent)

instance : WorkTree MemoryTree where
  isSymlink t path := t.symlinks.contains path
  isFile t path := (t.get? path).isSome
  isDir t path := (t.dirs.lookup path).isSome
  read := read
  write := write
  list t dir _ := t.list dir

end MemoryTree

end CleanDiff
