import CleanDiff.Path

/-!
# Run reports

A run answers with a *report*: one outcome for every file it could examine, in
the order in which they were examined, and one failure for every file or
directory that an error kept it from. The *summary* counts them.
-/

namespace CleanDiff

/-- Why a file was left alone without being examined. -/
inductive SkipReason
  /-- The reference revision has no such file, or it cannot be read there. -/
  | notTracked
  /-- There is no such file in the working tree. -/
  | notFound
  /-- The file is not UTF-8 text. -/
  | undecodable
  /-- The path is a symbolic link. -/
  | symlink
  deriving DecidableEq, Repr

namespace SkipReason

/-- Every reason. -/
def all : List SkipReason := [.notTracked, .notFound, .undecodable, .symlink]

/-- The reason as it is shown. -/
def name : SkipReason → String
  | .notTracked => "not-tracked"
  | .notFound => "not-found"
  | .undecodable => "binary-or-undecodable"
  | .symlink => "symlink"

/-- The reason with this name. -/
def ofName? (s : String) : Option SkipReason := all.find? fun r => r.name = s

end SkipReason

/-- What happened to one file. -/
inductive FileOutcome
  /-- The file was examined: was it rewritten (in a dry run, would it be), and
  how many pieces of it were reverted? -/
  | processed (path : Path) (rewritten : Bool) (reversions : Nat)
  | skipped (path : Path) (reason : SkipReason)
  deriving DecidableEq, Repr

namespace FileOutcome

def path : FileOutcome → Path
  | .processed path _ _ => path
  | .skipped path _ => path

/-- The pieces reverted; none in a skipped file. -/
def reversions : FileOutcome → Nat
  | .processed _ _ reversions => reversions
  | .skipped _ _ => 0

def isRewritten : FileOutcome → Bool
  | .processed _ rewritten _ => rewritten
  | .skipped _ _ => false

def skipReason? : FileOutcome → Option SkipReason
  | .processed _ _ _ => none
  | .skipped _ reason => some reason

end FileOutcome

/-- A file or directory that an error kept from being examined. -/
structure FileFailure where
  path : Path
  error : String
  deriving DecidableEq, Repr

/-- The number of values that a count can have: counts are words of 64 bits. A sum that is
larger begins again at zero, in unchecked arithmetic as a release build has it; a checked
build stops there. -/
def wordSize : Nat := 18446744073709551616

/-- The counts of a run. -/
structure Summary where
  files : Nat
  rewritten : Nat
  skipped : Nat
  failed : Nat
  reversions : Nat
  deriving DecidableEq, Repr

/-- The report of a run. -/
structure Report where
  dryRun : Bool
  files : List FileOutcome
  failures : List FileFailure
  deriving DecidableEq, Repr

namespace Report

/-- Count the entries of a report. Their reversions are added up unchecked, as in a release
build, so the sum can begin again at zero; a checked build stops instead. -/
def summary (r : Report) : Summary where
  files := r.files.length + r.failures.length
  rewritten := r.files.countP (·.isRewritten)
  skipped := r.files.countP (·.skipReason?.isSome)
  failed := r.failures.length
  reversions := r.files.foldr (fun o n => o.reversions + n) 0 % wordSize

/-- The first outcome for a path. -/
def outcomeFor? (r : Report) (path : Path) : Option FileOutcome :=
  r.files.find? fun o => o.path = path

end Report

end CleanDiff
