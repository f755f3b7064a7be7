import CleanDiff.Disk.Canonical
import CleanDiff.Repository.Object
import CleanDiff.Repository.Settings
import CleanDiff.Repository.Zlib

/-!
# Repositories on a disk

A repository keeps its own files in one directory: `HEAD`, which names the
current branch, a directory of references, and a directory of objects. A
directory is recognised as such a place by these three. A file `commondir` in it
says that all but `HEAD` lies in another directory, which several working trees
have in common.

Discovery begins at some path and goes up: at each directory it tries the `.git`
in it, and then the directory itself, which is how a repository without a working
tree is found. A `.git` that is a file names the directory that stands for it.
What is found is then opened: its settings say whether there is a working tree,
and where, and a repository with settings that are not understood is none.
-/

namespace CleanDiff

/-- A repository on a disk. -/
structure Repository where
  /-- The place of the repository's own directory. -/
  home : List Bytes
  /-- The place of the directory with the objects, the references and the settings. -/
  common : List Bytes
  /-- The working tree, if there is one. -/
  workTree : Option Path
  deriving DecidableEq, Repr

namespace Repository

/-- A name as bytes. -/
def name (s : String) : Bytes := Utf8.encode s.toList

/-- The path of an entry of the directory at a place. -/
def inside (place : List Bytes) (entry : Bytes) : Bytes :=
  Disk.written place ++ Disk.slash :: entry

/-- The path of a directory, with a slash at its end. -/
def dirPath (place : List Bytes) : Path :=
  .ofBytes (match place with
    | [] => [Disk.slash]
    | place => Disk.written place ++ [Disk.slash])

/-! ### Objects -/

/-- Why something that a repository should hold cannot be had. -/
inductive Absence
  /-- It is not there. -/
  | missing
  /-- It is there and cannot be read. -/
  | broken
  deriving DecidableEq, Repr

/-- Read a file of a repository. -/
def readFile (d : Disk) (path : Bytes) : Except Absence Bytes :=
  match d.contentAt path with
  | .ok content => .ok content
  | .error .noSuchFile => .error .missing
  | .error .notADirectory => .error .missing
  | .error .isADirectory => .error .missing
  | .error _ => .error .broken

/-- The place of an object below the directory of the objects. -/
def objectPlace (id : ObjectId) : List Bytes :=
  let hex := Utf8.encode id.toHex
  [name "objects", hex.take 2, hex.drop 2]

/-- Read an object. -/
def readObject (d : Disk) (r : Repository) (id : ObjectId) : Except Absence StoredObject :=
  match readFile d (Disk.written (r.common ++ objectPlace id)) with
  | .error e => .error e
  | .ok stored =>
      match Zlib.decompress? stored with
      | none => .error .broken
      | some bytes =>
          match if Sha1.digest bytes = id then StoredObject.decode? bytes else none with
          | some o => .ok o
          | none => .error .broken

/-- The object with a name; none if it is missing or damaged. -/
def object? (d : Disk) (r : Repository) (id : ObjectId) : Option StoredObject :=
  (readObject d r id).toOption

/-! ### Discovery -/

def isSpaceByte (b : UInt8) : Bool := isAsciiBlank b.toNat

/-- What a file says that holds one line: its content without the blanks at its end,
and up to a zero byte. -/
def lineOf (content : Bytes) : Bytes :=
  ((content.reverse.dropWhile isSpaceByte).reverse).takeWhile (· ≠ 0)

/-- Does a path begin with `./` or `../`? -/
def isDotted (path : Bytes) : Bool :=
  (Disk.dot ++ [Disk.slash]).isPrefixOf path || (Disk.dotDot ++ [Disk.slash]).isPrefixOf path

/-- A path that a file of the directory at a place names. It is seen from that
directory only if it says so. -/
def namedPath (place : List Bytes) (path : Bytes) : Bytes :=
  if isDotted path then inside place path else path

/-- The place of the directory with the objects, the references and the settings
of the repository whose own directory is at a place; none if it is named and not
there. -/
def commonOf? (d : Disk) (home : List Bytes) : Option (List Bytes) :=
  let link := inside home (name "commondir")
  if d.holds true link Node.isFile then
    match d.contentAt link with
    | .error _ => none
    | .ok content => (d.canonicalPlace (namedPath home (lineOf content))).toOption
  else some home

/-- What a candidate for a repository's own directory turns out to be. -/
inductive Candidate
  | home (place common : List Bytes)
  | nothing
  /-- Something that should name a directory and does not; discovery ends there. -/
  | broken

/-- Is the directory at a place the own directory of a repository? -/
def judgeDir (d : Disk) (place : List Bytes) : Candidate :=
  match commonOf? d place with
  | none => .broken
  | some common =>
      if d.holds true (inside place (name "HEAD")) Node.isFile &&
          d.holds true (inside common (name "objects")) Node.isDir &&
          d.holds true (inside common (name "refs")) Node.isDir then
        .home place common
      else .nothing

/-- The directory that a file with this content names, seen from the directory in
which the file lies. -/
def namedHome? (d : Disk) (dir : List Bytes) (content : Bytes) : Option (List Bytes) :=
  let line := lineOf content
  let lead := name "gitdir:"
  if lead.isPrefixOf line && lead.length < line.length then
    let target := (line.drop lead.length).dropWhile isSpaceByte
    let path := if target.head? = some Disk.slash then target else inside dir target
    (d.canonicalPlace path).toOption
  else none

/-- Look at what lies at a place. A file counts only under the name `.git`. -/
def judge (d : Disk) (place : List Bytes) : Candidate :=
  match d.look true (Disk.written place) with
  | .error _ => .nothing
  | .ok (.dir _ _) => judgeDir d place
  | .ok _ =>
      if place.getLast? = some (name ".git") then
        match d.contentAt (Disk.written place) with
        | .error _ => .broken
        | .ok content =>
            match namedHome? d place.dropLast content with
            | none => .broken
            | some home =>
                match judgeDir d home with
                | .home place common => .home place common
                | _ => .broken
      else .nothing

/-- Look at the `.git` in a directory. -/
def judgeDotGit (d : Disk) (place : List Bytes) : Candidate := judge d (place ++ [name ".git"])

/-- Look at a place and then at those above it, given their names from the last
on. -/
def search (d : Disk) : List Bytes → Option (List Bytes)
  | [] => none
  | last :: above =>
      let place := (last :: above).reverse
      match judgeDotGit d place with
      | .home home _ => some home
      | .broken => none
      | .nothing =>
          match judge d place with
          | .home home _ => some home
          | .broken => none
          | .nothing => search d above

/-! ### Opening -/

/-- The last version of the layout of a repository that is understood. -/
def lastVersion : Int := 1

/-- The extensions of the layout that are understood. -/
def extensions : List String := ["noop", "objectformat", "preciousobjects", "worktreeconfig"]

/-- The digest by which objects are named. -/
def objectFormat : Text := "sha1".toList

/-- Is the repository laid out in a way that is understood? -/
def isUnderstood (s : Settings) : Bool :=
  match s.get? "core.repositoryformatversion" with
  | none => true
  | some value =>
      match value.bind Settings.number? with
      | none => false
      | some version =>
          let named := s.filterMap fun v => Text.after? "extensions.".toList v.1
          let format := (s.get? "extensions.objectformat").getD (some objectFormat)
          version ≤ lastVersion &&
            (version < 1 || (named.all (fun e => extensions.contains (String.ofList e)) &&
              format = some objectFormat))

/-- Has the repository its directory of objects in common with another one, whose
further working tree it is? -/
def isLinked (d : Disk) (home common : List Bytes) : Bool :=
  home ≠ common && (d.find true (inside home (name "gitdir"))).toOption.isSome

/-- The working tree that a further one's own directory names: the directory of the
file that is named there. -/
def linkedTree? (d : Disk) (home : List Bytes) : Option Path :=
  match d.contentAt (inside home (name "gitdir")) with
  | .error _ => none
  | .ok content => do
      let parent ← Components.parent? Disk.slash Disk.dotByte (namedPath home (lineOf content))
      return .ofBytes ((if parent = [] then Disk.dot else parent) ++ [Disk.slash])

/-- The working tree of a repository whose own directory lies in the directory at
`parent`; none within if there is none, none at all if there is no telling. -/
def workTree? (d : Disk) (s : Settings) (home common parent : List Bytes) :
    Option (Option Path) :=
  let linked := isLinked d home common
  let bare := match s.get? "core.bare" with
    | none => some false
    | some value => Settings.bool? value
  match bare with
  | none => none
  | some bare =>
      if bare && !linked then some none
      else if linked then (linkedTree? d home).map some
      else
        match s.get? "core.worktree" with
        | some (some value) =>
            let value := Utf8.encode value
            let path := if value.head? = some Disk.slash then value else inside home value
            (d.canonicalPlace path).toOption.map fun place => some (dirPath place)
        | _ => some (some (dirPath parent))

/-- The repository whose own directory is known, if it can be opened. -/
def open? (d : Disk) (home common parent : List Bytes) : Option Repository := do
  let s ← Settings.read? d Settings.maxDepth (.ofBytes (inside common (name "config")))
  if isUnderstood s then
    return ⟨home, common, ← workTree? d s home common parent⟩
  else none

/-- The repository at a place where discovery found one. As at any other place, the
`.git` in it comes first. -/
def openAt? (d : Disk) (found : List Bytes) : Option Repository := do
  let place ← (d.canonicalPlace (Disk.written found)).toOption
  match judgeDotGit d place with
  | .home home common => open? d home common place
  | .broken => none
  | .nothing =>
      match judge d place with
      | .home home common => open? d home common place.dropLast
      | _ => none

/-- The repository that contains a path. -/
def around (d : Disk) (start : Path) : Except RepositoryError Repository :=
  let found := match d.canonicalPlace start.toBytes with
    | .error _ => none
    | .ok place => (search d place.reverse).bind (openAt? d)
  match found with
  | some r => .ok r
  | none => .error (.notInside start)

/-- The canonical path of the working tree. -/
def workTreeRoot (d : Disk) (r : Repository) : Except RepositoryError Path :=
  match r.workTree with
  | none => .error (.bare (dirPath r.home))
  | some path => (d.canonicalize path).mapError .file

/-- The canonical path of the working tree that contains a path. -/
def rootAround (d : Disk) (start : Path) : Except RepositoryError Path := do
  workTreeRoot d (← around d start)

end Repository

end CleanDiff
