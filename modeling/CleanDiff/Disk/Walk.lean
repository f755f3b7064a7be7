import CleanDiff.Disk.Basic

/-!
# Walking a directory

The walk below a directory finds the regular files that a run may touch. It does
not follow symbolic links, except that the directory walked may itself be one,
and it enters no directory with an excluded name; the repository's own directory
is always excluded. A directory whose path is too long for the system is left
out with all that is below it, and so is one that may not be read, and a file
whose path is not text. The files come in ascending order of their paths.
-/

namespace CleanDiff.Disk

/-- The directory in which a repository keeps its own files. -/
def repositoryDir : Text := ".git".toList

/-- May the walk enter a directory with this name? -/
def mayEnter (excluded : List Text) (name : Bytes) : Bool :=
  let shown := Utf8.decodeLossy name
  shown ≠ repositoryDir && !excluded.contains shown

/-- The path of a place below a directory whose path is written as `dir`. -/
def below (dir : Bytes) (place : List Bytes) : Bytes :=
  place.foldl (fun path name =>
    if path.getLast? = some slash then path ++ name else path ++ slash :: name) dir

/-- Can the directory at a place below a node be read? Those that lead to it have
to be read as well, and passed through. -/
def mayList : Node → List Bytes → Bool
  | node, [] => node.isReadable
  | node, name :: rest =>
      node.isReadable && node.isSearchable && (node.child? name).any (mayList · rest)

/-- Does the walk below a directory reach what lies at the end of a trail? All
directories on the way to it have to be entered. -/
def reaches (excluded : List Text) (dir : Bytes) (node : Node) (trail : List Bytes) : Bool :=
  trail.tail.all (mayEnter excluded) && mayList node trail.tail.reverse &&
    (trail.tail = [] || (below dir trail.tail.reverse).length ≤ maxPath)

/-- The path of a file that the walk finds. -/
def walkedFile? (excluded : List Text) (dir : Bytes) (node : Node)
    (entry : List Bytes × Node) : Option Path :=
  if entry.2.isFile ∧ reaches excluded dir node entry.1 then
    (Utf8.decode? (below dir entry.1.reverse)).map Path.ofText
  else none

/-- The files below a directory node, in ascending order. -/
def walk (excluded : List Text) (dir : Bytes) (node : Node) : List Path :=
  ((node.descendants []).filterMap (walkedFile? excluded dir node)).mergeSort fun p q => !q.before p

/-- The files below a directory that is there, if it may be read. -/
def listing (excluded : List Text) (dir : Path) (node : Node) : Except FileError (List Path) :=
  if node.isDir ∧ !node.isReadable then .error (.io dir .forbidden)
  else .ok (walk excluded dir.toBytes node)

/-- The regular files below a directory. A file lists itself, and a link to a
directory lists what is below that directory. -/
def filesBelow (d : Disk) (dir : Path) (excluded : List Text) : Except FileError (List Path) :=
  match d.look false dir.toBytes with
  | .error e => .error (.io dir e)
  | .ok (.file _ _) => .ok [.ofText dir.text]
  | .ok (.dir entries mode) => listing excluded dir (.dir entries mode)
  | .ok (.link _) =>
      match d.look true dir.toBytes with
      | .error e => .error (.io dir e)
      | .ok node => listing excluded dir node

end CleanDiff.Disk
