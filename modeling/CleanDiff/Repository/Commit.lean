import CleanDiff.Repository.Revision

/-!
# Making and changing a repository

Making an empty repository, committing the files of a working tree, pointing
references at commits, and taking objects away again.
-/

namespace CleanDiff

/-- What a path holds in a commit. -/
inductive Leaf
  | file (content : Bytes)
  /-- A file that may be run. -/
  | program (content : Bytes)
  | link (target : Bytes)
  /-- A commit of another repository. -/
  | submodule (id : ObjectId)
  deriving DecidableEq, Repr

namespace Leaf

/-- The mode of the entry for a leaf. -/
def mode : Leaf → Text
  | .file _ => TreeEntry.fileMode
  | .program _ => TreeEntry.programMode
  | .link _ => TreeEntry.linkMode
  | .submodule _ => TreeEntry.submoduleMode

/-- The object that a leaf is stored as. -/
def object? : Leaf → Option StoredObject
  | .file content => some (.blob content)
  | .program content => some (.blob content)
  | .link target => some (.blob target)
  | .submodule _ => none

/-- The object that the entry for a leaf names. -/
def id : Leaf → ObjectId
  | .file content => (StoredObject.blob content).id
  | .program content => (StoredObject.blob content).id
  | .link target => (StoredObject.blob target).id
  | .submodule id => id

end Leaf

namespace StoredObject

/-- The first names of a list of paths, each once. -/
def firstNames (leaves : List (List Bytes × Leaf)) : List Bytes :=
  (leaves.filterMap fun l => l.1.head?).eraseDups

/-- The tree of a list of leaves with their paths, and all objects below it; paths
are at most `depth` names long. -/
def treeOfLeaves : Nat → List (List Bytes × Leaf) → StoredObject × List StoredObject
  | 0, _ => (.tree [], [])
  | depth + 1, leaves =>
      let parts := (firstNames leaves).map fun name =>
        match leaves.lookup [name] with
        | some leaf => ((⟨leaf.mode, name, leaf.id⟩ : TreeEntry), leaf.object?.toList)
        | none =>
            let inner := leaves.filterMap fun l =>
              if l.1.head? = some name then some (l.1.tail, l.2) else none
            let (below, objects) := treeOfLeaves depth inner
            (⟨TreeEntry.treeMode, name, below.id⟩, below :: objects)
      let entries := (parts.map Prod.fst).mergeSort fun a b => !decide (b.sortKey < a.sortKey)
      (.tree entries, parts.flatMap Prod.snd)

end StoredObject

namespace Repository

/-! ### New repositories -/

/-- The branch of a new repository. -/
def firstBranch : String := "refs/heads/master"

/-- Make the directories that lead to a place, and the one at it. -/
def putDir (d : Disk) (place : List Bytes) : Disk :=
  ((List.range (place.length + 1)).map fun n => place.take n).foldl (fun (d : Disk) parent =>
    match d.root.get? parent with
    | some _ => d
    | none => d.put parent (some .emptyDir)) d

/-- Put a file at a place, and make the directories that lead to it. -/
def putFile (d : Disk) (place : List Bytes) (content : Bytes) (mode : Nat) : Disk :=
  (putDir d place.dropLast).put place (some (.file content mode))

/-- The mode of the files in which a repository keeps what changes. -/
def ownMode : Nat := 0o644

/-- The mode of the files in which a repository keeps its objects. -/
def objectMode : Nat := 0o444

/-- The settings of a new repository. -/
def firstSettings (bare : Bool) : String :=
  "[core]\n\tbare = " ++ (if bare then "true" else "false") ++ "\n" ++
    "\trepositoryformatversion = 0\n\tfilemode = true\n" ++
    (if bare then "" else "\tlogallrefupdates = true\n")

/-- Make an empty repository with its own directory at `home`. -/
def initAt (d : Disk) (home : List Bytes) (bare : Bool) : Disk :=
  let dirs := [["objects", "info"], ["objects", "pack"], ["refs", "heads"], ["refs", "tags"]]
  let d := dirs.foldl (fun d dir => putDir d (home ++ dir.map name)) d
  let d := putFile d (home ++ [name "HEAD"]) (name ("ref: " ++ firstBranch ++ "\n")) ownMode
  putFile d (home ++ [name "config"]) (name (firstSettings bare)) ownMode

/-- Make an empty repository whose working tree is at a place. One that is there stays
as it is. -/
def init (d : Disk) (workTree : List Bytes) : Disk × Repository :=
  let home := workTree ++ [name ".git"]
  let made := match judgeDir d home with
    | .home _ _ => d
    | _ => initAt d home false
  (made, ⟨home, home, some (dirPath workTree)⟩)

/-! ### References -/

/-- The object that `HEAD` leads to. -/
def head? (d : Disk) (r : Repository) : Option ObjectId :=
  (chainEnd d r maxHops RefName.head).toOption.map Ref.id

/-- The name at the end of a chain of references, which need not be there; the
chain is followed at most so far. -/
def lastName (d : Disk) (r : Repository) : Nat → RefName → RefName
  | 0, ref => ref
  | hops + 1, ref =>
      match refTarget d r ref with
      | .ok (.other next) => lastName d r hops next
      | _ => ref

/-- Are the changes of a reference logged? Those of branches and of `HEAD` are, and of
others with a log, unless the settings say otherwise. -/
def isLogged (d : Disk) (r : Repository) (ref : RefName) : Bool :=
  let settings := (Settings.read? d Settings.maxDepth
    (.ofBytes (inside r.common (name "config")))).getD []
  let isWanted := match settings.get? "core.logallrefupdates" with
    | none => r.workTree.isSome
    | some value => (Settings.bool? value).getD true
  let isKept := ref = RefName.head ||
    ["refs/heads/", "refs/remotes/", "refs/notes/"].any fun lead =>
      (RefName.ofString lead).isPrefixOf ref
  isWanted && (isKept || (d.contentAt (Disk.written (logPlace r ref))).toOption.isSome)

/-- Put a change into the log of a reference. -/
def log (d : Disk) (r : Repository) (ref : RefName) (old : Option ObjectId) (c : RefChange) :
    Disk :=
  let place := logPlace r ref
  let before := (d.contentAt (Disk.written place)).toOption.getD []
  putFile d place (before ++ c.line old) ownMode

/-- Point a reference at an object and log the change, for `HEAD` too if it leads to
this reference. -/
def setRef (d : Disk) (r : Repository) (ref : RefName) (id : ObjectId) (message : Bytes) : Disk :=
  let old := (chainEnd d r maxHops ref).toOption.map Ref.id
  let c : RefChange := ⟨id, StoredObject.present, message⟩
  let logged := if isLogged d r ref then
      let isCurrent := ref ≠ RefName.head ∧ lastName d r maxHops RefName.head = ref
      let d := log d r ref old c
      if isCurrent then log d r RefName.head old c else d
    else d
  putFile logged (refHome r ref ++ ref.parts) (StoredObject.hexBytes id ++ [0x0A]) ownMode

/-- Is there room for the file of a reference? No other reference may have a file on
the way to it, or below it. -/
def hasRoom (d : Disk) (r : Repository) (ref : RefName) : Bool :=
  let place := refHome r ref ++ ref.parts
  let above := (List.range place.length).all fun n =>
    match d.root.get? (place.take n) with
    | some node => node.isDir
    | none => true
  let below := match d.root.get? place with
    | some node => (node.descendants []).all fun inner => inner.2.isDir
    | none => true
  above && below

/-- Point a reference at an object; none if there can be no such reference. -/
def setReference? (d : Disk) (r : Repository) (ref : String) (id : ObjectId) : Option Disk :=
  let ref := RefName.ofString ref
  if ref.isValid ∧ hasRoom d r ref then some (setRef d r ref id []) else none

/-! ### Commits -/

/-- Store an object. What is stored under its name already stays as it is. -/
def store (d : Disk) (r : Repository) (o : StoredObject) : Disk :=
  let place := r.common ++ objectPlace o.id
  if (d.root.get? place).isSome then d else putFile d place (Zlib.wrap o.encode) objectMode

/-- The files and links of a working tree, without the directories of
repositories. -/
def leavesOf (node : Node) : List (List Bytes × Leaf) :=
  (node.descendants []).filterMap fun (trail, n) =>
    if trail.tail.contains (name ".git") then none
    else
      match n with
      | .file content mode =>
          if trail.head? = some (name ".git") then none
          else
            let isProgram := (Node.file content mode).isExecutable
            some (trail.reverse, if isProgram then .program content else .file content)
      | .link target => some (trail.reverse, .link target)
      | .dir _ _ => none

/-- The message of every commit. -/
def commitMessage : Bytes := name "commit"

/-- The root of the working tree. -/
def workTreeNode (d : Disk) (r : Repository) : Node :=
  match r.workTree with
  | none => .emptyDir
  | some path => (d.look true path.toBytes).toOption.getD .emptyDir

/-- Commit the files and links of the working tree, with submodules at some
paths, and move what `HEAD` leads to, to the commit. -/
def commitAll (d : Disk) (r : Repository) (submodules : List (List Bytes)) : Disk × ObjectId :=
  let linked := submodules.map fun p => (p, Leaf.submodule (List.replicate 20 0x11))
  let leaves := (leavesOf (workTreeNode d r)).filter (fun l => !submodules.contains l.1) ++ linked
  let depth := (leaves.map fun l => l.1.length).foldl max 0
  let (tree, objects) := StoredObject.treeOfLeaves (depth + 1) leaves
  let parent := head? d r
  let commit := StoredObject.commit tree.id parent.toList commitMessage
  let d := (commit :: tree :: objects).foldl (fun d o => store d r o) d
  let said := name (if parent.isNone then "commit (initial): " else "commit: ") ++ commitMessage
  (setRef d r (lastName d r maxHops RefName.head) commit.id said, commit.id)

/-! ### Taking objects away -/

/-- Is an object stored, sound or not? -/
def isStored (d : Disk) (r : Repository) (id : ObjectId) : Bool :=
  (readFile d (Disk.written (r.common ++ objectPlace id))).toOption.isSome

/-- Take an object away; none if it is not stored. -/
def forget? (d : Disk) (r : Repository) (id : ObjectId) : Option Disk :=
  if isStored d r id then some (d.put (r.common ++ objectPlace id) none) else none

/-- The stored listing of a directory of `HEAD`. -/
def listing? (d : Disk) (r : Repository) (path : List Bytes) : Option ObjectId := do
  let (tree, entries) ← tree? d r (← head? d r)
  if path = [] then return tree
  else
    match entryAt d r entries path with
    | .entry e => if e.kind = .tree then some e.id else none
    | _ => none

/-- Take the stored listing of a directory of `HEAD` away, or write garbage over
it; none if there is no such directory. -/
def damage? (d : Disk) (r : Repository) (path : List Bytes) (garbage : Bool) : Option Disk := do
  let id ← listing? d r path
  if !isStored d r id then none
  else
    let node := if garbage then some (.file (name "garbage") objectMode) else none
    return d.put (r.common ++ objectPlace id) node

end Repository

end CleanDiff
