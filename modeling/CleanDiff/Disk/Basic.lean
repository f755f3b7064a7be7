import CleanDiff.Disk.NativePath
import CleanDiff.Disk.Node
import CleanDiff.Failure

/-!
# A file system and how paths are followed in it

A *disk* is a tree of nodes with a current directory, at which relative paths
begin. Following a path goes through its components from left to right: `..` goes
back to the directory in which the present one lies, and a symbolic link stands
for the path that it names, read from the directory in which the link lies. At
most `maxLinks` links are followed. What a path with a slash at its end names has to
be a directory. A directory is only passed through if its permission bits allow it.

The current directory may have been taken away since it was entered. It is then
an empty directory in which nothing can be made, and `..` leads out of it to the
directory in which it lay.
-/

namespace CleanDiff

/-- A file system, with what a process knows of it. -/
structure Disk where
  root : Node := .emptyDir
  /-- The current directory, as the names that lead to it from the root. -/
  current : List Bytes := []
  /-- How many of the last of these names stand for directories that have been
  taken away. -/
  gone : Nat := 0
  /-- The number of the running process. -/
  process : Nat := 1
  /-- The size up to which a file may be written. -/
  sizeLimit : Option Nat := none

namespace Disk

/-- How many links are followed on the way to a place. -/
def maxLinks : Nat := 40

/-- The longest name of an entry. -/
def maxName : Nat := 255

/-- The longest path that the system takes. -/
def maxPath : Nat := 4095

/-- The way from the root to a node: the names passed with their nodes, the
nearest first. The empty trail is the root. -/
abbrev Trail := List (Bytes × Node)

/-- Where a path leads. -/
inductive Place
  /-- To a node that is there. -/
  | found (trail : Trail)
  /-- To a name that is free in a directory that is there. -/
  | free (parent : Trail) (name : Bytes)

def slash : UInt8 := 0x2F
def dotByte : UInt8 := 0x2E
def dot : Bytes := [dotByte]
def dotDot : Bytes := [dotByte, dotByte]

/-- The node at the end of a trail. -/
def nodeAt (d : Disk) : Trail → Node
  | [] => d.root
  | (_, node) :: _ => node

/-- The names of a trail, from the root on. -/
def names (trail : Trail) : List Bytes := (trail.map Prod.fst).reverse

/-- The components of a written path. An empty one at the end stands for a slash
there. -/
def components (path : Bytes) : List Bytes :=
  let parts := path.splitOn slash
  parts.filter (· ≠ []) ++ if path.getLast? = some slash then [[]] else []

/-- The trail from the root along a list of names. -/
def trailOf (node : Node) (trail : Trail) : List Bytes → Option Trail
  | [] => some trail
  | name :: rest => (node.child? name).bind fun inner => trailOf inner ((name, inner) :: trail) rest

/-- Follow components from the end of a trail; with `last` also a link at the
very end. -/
def follow (d : Disk) (last : Bool) (links : Nat) (trail : Trail) (path : List Bytes) :
    Except IoReason Place :=
  match path with
  | [] => .ok (.found trail)
  | name :: rest =>
      if name = [] then d.follow last links trail rest
      else if !(d.nodeAt trail).isSearchable then .error .forbidden
      else if name = dot then d.follow last links trail rest
      else if name = dotDot then d.follow last links trail.tail rest
      else if maxName < name.length then .error .nameTooLong
      else
        match (d.nodeAt trail).child? name with
        | none => if rest = [] then .ok (.free trail name) else .error .noSuchFile
        | some (.link target) =>
            if rest = [] ∧ !last then .ok (.found ((name, .link target) :: trail))
            else
              match links with
              | 0 => .error .tooManyLinks
              | links + 1 =>
                  let start := if target.head? = some slash then [] else trail
                  d.follow last links start (components target ++ rest)
        | some (.file content mode) =>
            if rest = [] then .ok (.found ((name, .file content mode) :: trail))
            else .error .notADirectory
        | some (.dir entries mode) =>
            d.follow last links ((name, .dir entries mode) :: trail) rest
termination_by (links, path.length)

/-- Follow components out of `gone` directories that have been taken away; what is
left are those that the path stays in, and the components behind. -/
def climb : Nat → List Bytes → Except IoReason (Nat × List Bytes)
  | 0, path => .ok (0, path)
  | gone + 1, [] => .ok (gone + 1, [])
  | gone + 1, name :: rest =>
      if name = [] ∨ name = dot then climb (gone + 1) rest
      else if name = dotDot then climb gone rest
      else .error .noSuchFile

/-- The trail to the part of the current directory's place that is there. -/
def liveTrail (d : Disk) : Option Trail :=
  trailOf d.root [] (d.current.take (d.current.length - d.gone))

/-- Follow components from the current directory. -/
def followRelative (d : Disk) (last : Bool) (path : List Bytes) : Except IoReason Place :=
  match climb d.gone path, d.liveTrail with
  | .error e, _ => .error e
  | .ok _, none => .error .noSuchFile
  | .ok (0, rest), some trail => d.follow last maxLinks trail rest
  | .ok (left, _), some trail =>
      let stays := (d.current.drop (d.current.length - d.gone)).take left
      .ok (.found (stays.reverse.map (fun name => (name, .emptyDir)) ++ trail))

/-- Where a written path leads; with `last` a link at its very end is followed. -/
def locate (d : Disk) (last : Bool) (path : Bytes) : Except IoReason Place :=
  if path = [] then .error .noSuchFile
  else if path.contains 0 then .error .zeroByte
  else if maxPath < path.length then .error .nameTooLong
  else if path.head? = some slash then d.follow last maxLinks [] (components path)
  else d.followRelative last (components path)

/-- The trail to the node that a path names. -/
def find (d : Disk) (last : Bool) (path : Bytes) : Except IoReason Trail :=
  match d.locate last path with
  | .ok (.found trail) => .ok trail
  | .ok (.free _ _) => .error .noSuchFile
  | .error e => .error e

/-- The node that a path names. -/
def look (d : Disk) (last : Bool) (path : Bytes) : Except IoReason Node :=
  (d.find last path).map d.nodeAt

/-- Has the node that a path names a property? -/
def holds (d : Disk) (last : Bool) (path : Bytes) (p : Node → Bool) : Bool :=
  match d.look last path with
  | .ok node => p node
  | .error _ => false

/-- The path of a place, from the root on. -/
def written (place : List Bytes) : Bytes :=
  match place with
  | [] => [slash]
  | names => names.flatMap (slash :: ·)

/-- The path of the current directory, which has none once it is taken away. -/
def currentPath (d : Disk) : Except IoReason Bytes :=
  if d.gone = 0 then .ok (written d.current) else .error .noSuchFile

/-! ### Reading -/

/-- Does the path name a regular file? -/
def isFile (d : Disk) (path : Path) : Bool := d.holds true path.toBytes Node.isFile

/-- Does the path name a directory? -/
def isDir (d : Disk) (path : Path) : Bool := d.holds true path.toBytes Node.isDir

/-- Is the path itself a symbolic link? -/
def isSymlink (d : Disk) (path : Path) : Bool := d.holds false path.toBytes Node.isLink

/-- The content of the file that a native path names. -/
def contentAt (d : Disk) (path : Bytes) : Except IoReason Bytes :=
  match d.look true path with
  | .error e => .error e
  | .ok node =>
      if !node.isReadable then .error .forbidden
      else
        match node with
        | .file content _ => .ok content
        | _ => .error .isADirectory

/-- The content of a file. -/
def readBytes (d : Disk) (path : Path) : Except FileError Bytes :=
  (d.contentAt path.toBytes).mapError (.io path)

/-- The content of a file, as text. -/
def readText (d : Disk) (path : Path) : Except FileError Text :=
  match d.readBytes path with
  | .error e => .error e
  | .ok content =>
      match Utf8.decode? content with
      | some t => .ok t
      | none => .error (.io path .notUtf8)

/-! ### Writing -/

/-- Put a node at a place, or take away what is there. -/
def put (d : Disk) (place : List Bytes) (node : Option Node) : Disk :=
  { d with root := d.root.set node place }

/-- Put a node at a free name in a directory. -/
def putNew (d : Disk) (parent : Trail) (name : Bytes) (node : Node) : Disk :=
  d.put (names parent ++ [name]) (some node)

/-- The path without the slashes at its end; the root stays. -/
def withoutEndSlashes (path : Bytes) : Bytes :=
  let bare := (path.reverse.dropWhile (· = slash)).reverse
  if bare = [] then path else bare

/-- Make a directory. -/
def makeDir (d : Disk) (path : Bytes) : Except IoReason Disk :=
  match d.locate false (withoutEndSlashes path) with
  | .ok (.free parent name) =>
      let outer := d.nodeAt parent
      if outer.isWritable then .ok (d.putNew parent name (.dir [] outer.innerDirMode))
      else .error .forbidden
  | .ok (.found _) => .error .fileExists
  | .error e => .error e

/-- Make a directory unless it is there. -/
def ensureDir (d : Disk) (path : Bytes) : Disk × Except IoReason Unit :=
  match d.makeDir path with
  | .ok d => (d, .ok ())
  | .error e => (d, if d.holds true path Node.isDir then .ok () else .error e)

/-- Make a directory and the directories that lead to it, in at most `fuel`
steps; a directory that is there is fine. What was made before a failure stays. -/
def makeDirs : Nat → Disk → Bytes → Disk × Except IoReason Unit
  | 0, d, _ => (d, .error .noSuchFile)
  | fuel + 1, d, path =>
      if path = [] then (d, .ok ())
      else
        match d.ensureDir path with
        | (d, .error .noSuchFile) =>
            match Components.parent? slash dotByte path with
            | none => (d, .error .noSuchFile)
            | some parent =>
                match makeDirs fuel d parent with
                | (d, .error e) => (d, .error e)
                | (d, .ok ()) => d.ensureDir path
        | result => result

/-- Make a directory and the directories that lead to it. -/
def createDirs (d : Disk) (path : Bytes) : Disk × Except IoReason Unit :=
  makeDirs (path.length + 1) d path

/-- Write a file in place, following links; one that is there keeps its mode, but
for the bits that lend rights. A path with a slash at its end names no file. -/
def overwrite (d : Disk) (path : Bytes) (content : Bytes) : Except IoReason Disk :=
  if path.getLast? = some slash then
    match d.locate false (withoutEndSlashes path) with
    | .error e => .error e
    | .ok _ => .error .isADirectory
  else
  match d.locate true path with
  | .error e => .error e
  | .ok (.free parent name) =>
      if (d.nodeAt parent).isWritable then .ok (d.putNew parent name (.file content 0o644))
      else .error .forbidden
  | .ok (.found trail) =>
      match d.nodeAt trail with
      | .file old mode =>
          if (Node.file old mode).isWritable then
            .ok (d.put (names trail) (some (.file content (Node.modeAfterWrite mode))))
          else .error .forbidden
      | _ => .error .isADirectory

/-- Make a symbolic link, which has to name something. -/
def makeLink (d : Disk) (path target : Bytes) : Except IoReason Disk :=
  if target = [] then .error .noSuchFile
  else
  match d.locate false path with
  | .ok (.free parent name) =>
      if (d.nodeAt parent).isWritable then .ok (d.putNew parent name (.link target))
      else .error .forbidden
  | .ok (.found _) => .error .fileExists
  | .error e => .error e

/-- The disk with another root, from which things have been taken away, perhaps the
current directory among them. -/
def withLess (d : Disk) (root : Node) : Disk :=
  let live := d.current.take (d.current.length - d.gone)
  { d with root, gone := d.current.length - root.depthAlong live }

/-- Take a node away, with everything below it. What is gone before a failure stays
away. -/
def remove (d : Disk) (path : Bytes) : Disk × Except IoReason Unit :=
  match d.find false path with
  | .error e => (d, .error e)
  | .ok trail =>
      let (left, done) := (d.nodeAt trail).cleared
      if done ∧ (d.nodeAt trail.tail).isWritable then
        (d.withLess (d.put (names trail) none).root, .ok ())
      else (d.withLess (d.put (names trail) (some left)).root, .error .forbidden)

/-- Set the permission bits of what a path names. -/
def setMode (d : Disk) (path : Bytes) (mode : Nat) : Except IoReason Disk :=
  (d.find true path).map fun trail =>
    d.put (names trail) (some ((d.nodeAt trail).withMode mode))

/-- Move into a directory. -/
def changeDir (d : Disk) (path : Bytes) : Except IoReason Disk :=
  match d.find true path with
  | .error e => .error e
  | .ok trail =>
      let node := d.nodeAt trail
      if !node.isDir then .error .notADirectory
      else if !node.isSearchable then .error .forbidden
      else .ok { d with current := names trail, gone := 0 }

end Disk

end CleanDiff
