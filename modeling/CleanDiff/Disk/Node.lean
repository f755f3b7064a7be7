import CleanDiff.Text.Basic

/-!
# The nodes of a file system

A file system is a tree of nodes: files with their content, symbolic links with
the path they name, and directories with their entries. Names are byte strings,
as nothing says that they are text. A place in the tree is the list of names that
leads to it from the root.
-/

namespace CleanDiff

/-- A node of a file system. The mode holds the twelve permission bits; those of
the owner count, as whoever runs is the owner of everything. -/
inductive Node
  | file (content : Bytes) (mode : Nat)
  | link (target : Bytes)
  | dir (entries : List (Bytes × Node)) (mode : Nat)
  deriving Inhabited

namespace Node

/-- A directory with nothing in it. -/
def emptyDir : Node := .dir [] 0o755

def isDir : Node → Bool
  | .dir _ _ => true
  | _ => false

def isFile : Node → Bool
  | .file _ _ => true
  | _ => false

def isLink : Node → Bool
  | .link _ => true
  | _ => false

/-- The permission bits; those of a link are all set. -/
def mode : Node → Nat
  | .file _ mode => mode
  | .dir _ mode => mode
  | .link _ => 0o777

/-- The node with other permission bits. -/
def withMode (mode : Nat) : Node → Node
  | .file content _ => .file content mode
  | .dir entries _ => .dir entries mode
  | .link target => .link target

/-- May the node be read, and listed if it is a directory? -/
def isReadable (n : Node) : Bool := n.mode &&& 0o400 ≠ 0

/-- May the node be written, and have entries made or taken away if it is a
directory? -/
def isWritable (n : Node) : Bool := n.mode &&& 0o200 ≠ 0

/-- May a path lead through the directory? -/
def isSearchable (n : Node) : Bool := n.mode &&& 0o100 ≠ 0

/-- May the file be run by someone? -/
def isExecutable (n : Node) : Bool := n.mode &&& 0o111 ≠ 0

/-- The bit that a new directory has from the one in which it is made. -/
def groupBit : Nat := 0o2000

/-- The mode of a directory that is made in this one. -/
def innerDirMode (n : Node) : Nat := 0o755 ||| (n.mode &&& groupBit)

/-- The mode that a file has after it is written in place: the bits that lend the
rights of its owner or group are taken away, the latter only where the group may
run the file. -/
def modeAfterWrite (mode : Nat) : Nat :=
  let mode := mode - (mode &&& 0o4000)
  if mode &&& 0o010 = 0 then mode else mode - (mode &&& groupBit)

/-- The entry of a directory with this name. -/
def child? (name : Bytes) : Node → Option Node
  | .dir entries _ => entries.lookup name
  | _ => none

/-- The node at a place. -/
def get? : Node → List Bytes → Option Node
  | n, [] => some n
  | n, name :: rest => (n.child? name).bind (·.get? rest)

/-- Give an entry of a list a new node, or take it away; a new entry goes to the
end. -/
def setEntry (name : Bytes) (node : Option Node) : List (Bytes × Node) → List (Bytes × Node)
  | [] => match node with
      | some n => [(name, n)]
      | none => []
  | entry :: rest =>
      if entry.1 = name then
        match node with
        | some n => (name, n) :: rest
        | none => rest
      else entry :: setEntry name node rest

/-- Put a node at a place, or take away what is there. The directories that lead
to the place have to be there. -/
def set (node : Option Node) : List Bytes → Node → Node
  | [], n => node.getD n
  | [name], .dir entries mode => .dir (setEntry name node entries) mode
  | name :: rest, .dir entries mode =>
      match entries.lookup name with
      | some inner => .dir (setEntry name (some (set node rest inner)) entries) mode
      | none => .dir entries mode
  | _, n => n

mutual

/-- Everything below a node, each with the names that lead to it, the nearest
first. -/
def descendants (trail : List Bytes) : Node → List (List Bytes × Node)
  | .dir entries _ => entriesBelow trail entries
  | .file _ _ => []
  | .link _ => []

/-- The entries of a directory and everything below them. -/
def entriesBelow (trail : List Bytes) : List (Bytes × Node) → List (List Bytes × Node)
  | [] => []
  | (name, node) :: rest =>
      (name :: trail, node) :: (descendants (name :: trail) node ++ entriesBelow trail rest)

end

mutual

/-- Take away everything below a node, as far as its permission bits allow: what is
left, and whether that is nothing. A directory has to be read, and one that holds
something has to be changed and passed through. -/
def cleared : Node → Node × Bool
  | .dir entries mode =>
      if mode &&& 0o400 = 0 then (.dir entries mode, false)
      else if entries.isEmpty then (.dir [] mode, true)
      else if mode &&& 0o100 = 0 then (.dir entries mode, false)
      else
        let (left, done) := clearedEntries (mode &&& 0o200 ≠ 0) entries
        (.dir left mode, done)
  | .file content mode => (.file content mode, true)
  | .link target => (.link target, true)

/-- Take away entries with everything below them, up to the first that stays. They
go themselves only if the directory may be changed. -/
def clearedEntries (mayGo : Bool) : List (Bytes × Node) → List (Bytes × Node) × Bool
  | [] => ([], true)
  | (name, node) :: rest =>
      let (left, done) := cleared node
      if done && mayGo then clearedEntries mayGo rest else ((name, left) :: rest, false)

end

/-- How many of some names, from the first on, lead from a node to directories. -/
def depthAlong : Node → List Bytes → Nat
  | _, [] => 0
  | n, name :: rest =>
      match n.child? name with
      | some inner => inner.depthAlong rest + 1
      | none => 0

end Node

end CleanDiff
