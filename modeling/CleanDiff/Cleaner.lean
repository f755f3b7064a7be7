import CleanDiff.Report.Basic
import CleanDiff.Verdict
import CleanDiff.WorkTree.Basic

/-!
# The cleaner

A *cleaner* takes the noise back that the files of a working tree have against
their reference versions. A file is examined first, which changes nothing: it is
skipped, or its two texts are known. Only then is the cleaned text written, and
only if it differs and the run is not a dry one.

A run goes through its arguments in order, and through the files of each
directory among them. An error about one of them is recorded and keeps none of
the others from its turn.
-/

namespace CleanDiff

/-- A cleaner over a working tree. -/
structure Cleaner (σ : Type) where
  /-- The reference version of a file, none if it has none. -/
  reference : σ → Path → Except RepositoryError (Option Bytes)
  registry : Registry := {}
  /-- Report what would be written, and write nothing. -/
  dryRun : Bool := false
  /-- Names of directories that are not entered. -/
  excludeDirs : List Text := []

/-- What the look at a file shows. -/
inductive Examination
  | skip (reason : SkipReason)
  | texts (reference working : Text)
  deriving DecidableEq, Repr

namespace Cleaner

variable {σ : Type} [WorkTree σ]

/-- Look at a file. A reference version that cannot be read counts as none, and
it is read as text lossily; the working file has to be text. -/
def examine (c : Cleaner σ) (tree : σ) (path : Path) : Except FileError Examination :=
  if WorkTree.isSymlink tree path then .ok (.skip .symlink)
  else if !WorkTree.isFile tree path then .ok (.skip .notFound)
  else
    match c.reference tree path with
    | .error _ => .ok (.skip .notTracked)
    | .ok none => .ok (.skip .notTracked)
    | .ok (some reference) =>
        match WorkTree.read tree path with
        | .error e => if e.isNotFound then .ok (.skip .notFound) else .error e
        | .ok working =>
            match Utf8.decode? working with
            | none => .ok (.skip .undecodable)
            | some text => .ok (.texts (Utf8.decodeLossy reference) text)

/-- The profile of a file. -/
def profileOf (c : Cleaner σ) (path : Path) : Option Grammar :=
  c.registry.grammarForFile (path.extension?.map String.ofList)

/-- Clean one file. -/
def cleanFile (c : Cleaner σ) (tree : σ) (path : Path) : σ × Except CleanError FileOutcome :=
  match c.examine tree path with
  | .error e => (tree, .error (.file e))
  | .ok (.skip reason) => (tree, .ok (.skipped path reason))
  | .ok (.texts reference working) =>
      let result := denoise (c.profileOf path) reference working
      if result.reversions = 0 then (tree, .ok (.processed path false 0))
      else if result.content = working then (tree, .ok (.processed path false result.reversions))
      else if c.dryRun then (tree, .ok (.processed path true result.reversions))
      else
        match WorkTree.write tree path result.content with
        | (tree, .ok ()) => (tree, .ok (.processed path true result.reversions))
        | (tree, .error e) => (tree, .error (.writeFailure path e))

end Cleaner

namespace Report

/-- Add what became of a file. -/
def record (r : Report) (path : Path) : Except CleanError FileOutcome → Report
  | .ok outcome => { r with files := r.files ++ [outcome] }
  | .error e => { r with failures := r.failures ++ [⟨path, e.message⟩] }

end Report

namespace Cleaner

variable {σ : Type} [WorkTree σ]

/-- Clean a file and record what became of it. -/
def recordFile (c : Cleaner σ) (run : σ × Report) (path : Path) : σ × Report :=
  let (tree, result) := c.cleanFile run.1 path
  (tree, run.2.record path result)

/-- Clean an argument: a file, or every file below a directory. -/
def cleanArgument (c : Cleaner σ) (run : σ × Report) (path : Path) : σ × Report :=
  if WorkTree.isDir run.1 path then
    match WorkTree.list run.1 path c.excludeDirs with
    | .ok files => files.foldl c.recordFile run
    | .error e => (run.1, run.2.record path (.error (.file e)))
  else c.recordFile run path

/-- Clean every argument. -/
def cleanAll (c : Cleaner σ) (tree : σ) (paths : List Path) : σ × Report :=
  paths.foldl c.cleanArgument (tree, ⟨c.dryRun, [], []⟩)

/-- The arguments whose listings a run asks for. -/
def listed (_ : Cleaner σ) (tree : σ) (paths : List Path) : List Path :=
  paths.filter (WorkTree.isDir tree ·)

end Cleaner

end CleanDiff
