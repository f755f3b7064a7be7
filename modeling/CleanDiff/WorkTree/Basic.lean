import CleanDiff.Failure

/-!
# Working trees

A *working tree* is whatever holds the files a run looks at. The cleaner knows
only the operations below, so the same cleaner runs over a tree held in memory
and over a file system. A tree is a value: writing gives back the tree as it is
afterwards, also when it fails, since a failed write may leave something behind.
-/

namespace CleanDiff

/-- The operations of a working tree. -/
class WorkTree (σ : Type) where
  /-- Is the path a symbolic link? The link itself counts, not what it names. -/
  isSymlink : σ → Path → Bool
  /-- Does the path name a regular file? -/
  isFile : σ → Path → Bool
  /-- Does the path name a directory? -/
  isDir : σ → Path → Bool
  /-- The content of a file. -/
  read : σ → Path → Except FileError Bytes
  /-- Replace the content of a file. -/
  write : σ → Path → Text → σ × Except FileError Unit
  /-- The regular files below a directory, in the order in which they are
  examined. Directories with one of the given names are not entered. -/
  list : σ → Path → List Text → Except FileError (List Path)

end CleanDiff
