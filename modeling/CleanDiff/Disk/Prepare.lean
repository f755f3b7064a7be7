import CleanDiff.Disk.Basic

/-!
# Bringing a disk into some state

Steps by which an example sets the scene: files with the directories that lead to
them, chains of directories, and the list of everything that is there. Paths are
byte strings here, as the names on a disk are.
-/

namespace CleanDiff.Disk

/-- The path with another one behind it; an absolute path stands for itself. -/
def appendBytes (path more : Bytes) : Bytes :=
  if more.head? = some slash then more else path ++ slash :: more

/-- Keep the disk as it is where a step fails. -/
def orStay (d : Disk) (result : Except IoReason Disk) : Disk × Except IoReason Unit :=
  match result with
  | .ok d => (d, .ok ())
  | .error e => (d, .error e)

/-- Do a step on the disk that a first one leaves, if that succeeds. -/
def andThen (first : Disk × Except IoReason Unit) (next : Disk → Except IoReason Disk) :
    Disk × Except IoReason Unit :=
  match first with
  | (d, .ok ()) => d.orStay (next d)
  | (d, .error e) => (d, .error e)

/-- Write a file, and make the directories that lead to it. -/
def plant (d : Disk) (path content : Bytes) : Disk × Except IoReason Unit :=
  let made := match Components.parent? slash dotByte path with
    | some parent => d.createDirs parent
    | none => (d, .ok ())
  andThen made fun d => d.overwrite path content

/-- A chain of so many directories, one in the other and all of one name and mode,
with the same entries in each. -/
def chain (name : Bytes) (entries : List (Bytes × Node)) (mode : Nat) : Nat → List (Bytes × Node)
  | 0 => []
  | n + 1 => [(name, .dir (entries ++ chain name entries mode n) mode)]

/-- Change the place of a directory, which is made if it is not there. -/
def furnish (d : Disk) (path : Bytes) (change : Disk → List Bytes → Disk) :
    Disk × Except IoReason Unit :=
  andThen (d.createDirs path) fun d => do return change d (names (← d.find true path))

/-- Put a chain of directories into the directory at a place. -/
def putChain (name : Bytes) (entries : List (Bytes × Node)) (count : Nat) (d : Disk)
    (place : List Bytes) : Disk :=
  let mode := ((d.root.get? place).getD .emptyDir).innerDirMode
  (chain name entries mode count).foldl (fun d entry => d.put (place ++ [entry.1]) (some entry.2)) d

/-- Everything below a directory, with paths as seen from it; what lies in
directories of one name is left out. -/
def inventory (d : Disk) (path : Bytes) (without : Bytes) : List (Bytes × Node) :=
  match d.look true path with
  | .error _ => []
  | .ok node =>
      (node.descendants []).filterMap fun (trail, inner) =>
        if trail.tail.contains without ∨ (inner.isDir ∧ trail.head? = some without) then none
        else some ([slash].intercalate trail.reverse, inner)

end CleanDiff.Disk
