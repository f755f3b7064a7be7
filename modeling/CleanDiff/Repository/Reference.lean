import CleanDiff.Repository.Revision

/-!
# Reference versions of files

The *reference version* of a working file is what some revision of its repository
holds under the file's path, seen from the root of the working tree. A revision
that names nothing holds nothing, so no file is tracked then; that is no error.
-/

namespace CleanDiff

/-- A revision of a repository, as the source of reference versions. -/
structure Reference where
  repository : Repository
  /-- The canonical path of the working tree. -/
  root : Path
  revision : Text
  /-- The tree of the revision, none if it names nothing. -/
  tree : Option ObjectId
  deriving DecidableEq, Repr

namespace Reference

/-- The reference for the repository that contains a path. -/
def around (d : Disk) (start : Path) (revision : Text) : Except RepositoryError Reference := do
  let r ← Repository.around d start
  let root ← Repository.workTreeRoot d r
  return ⟨r, root, revision, Repository.treeOf? d r revision⟩

/-- The canonical form of a path, or the path itself where it has none. -/
def canonicalOr (d : Disk) (path : Path) : Path :=
  match d.canonicalize path with
  | .ok p => p
  | .error _ => path

/-- A path as seen from the root of the disk. A relative one has to be seen from the
current directory, which has to be there. -/
def absolute (d : Disk) (path : Path) : Except RepositoryError Path :=
  if path.text.head? = some '/' then .ok path
  else
    match d.currentPath with
    | .ok current => .ok ((⟨Utf8.decodeLossy current⟩ : Path).append path.text)
    | .error e => .error (.file (.io path e))

/-- An absolute path with the directory that it lies in resolved. A link at the end of
the path stands for itself. -/
def resolvePath (d : Disk) (path : Path) : Path :=
  match path.parent?, path.entryName? with
  | some parent, some entry => (canonicalOr d (.ofText parent.text)).join entry
  | _, _ => canonicalOr d (.ofText path.text)

/-- The path of a file from the root of the working tree on. -/
def relativePath (d : Disk) (r : Reference) (path : Path) : Except RepositoryError Path := do
  match (resolvePath d (← absolute d path)).relativeTo? r.root with
  | some relative => if relative.text = [] then .error (.outside path) else .ok relative
  | none => .error (.outside path)

/-- The reference version of a file, none if it is not tracked. -/
def content (d : Disk) (r : Reference) (path : Path) : Except RepositoryError (Option Bytes) :=
  match r.tree with
  | none => .ok none
  | some tree => do
      let relative ← relativePath d r path
      if relative.toBytes.contains 0 then throw .storage
      match Repository.tree? d r.repository tree with
      | none => .error .storage
      | some (_, entries) =>
          match Repository.entryAt d r.repository entries (relative.toBytes.splitOn Disk.slash) with
          | .missing => .ok none
          | .damaged => .error .storage
          | .entry e =>
              if e.kind ≠ .blob then .ok none
              else
                match Repository.object? d r.repository e.id with
                | some (.blob content) => .ok (some content)
                | _ => .error .storage

end Reference

end CleanDiff
