import CleanDiff.Text.Basic

/-!
# What a command line asks for

The *options* of a run, and the ways in which a command line can be refused.
Asking for help or for the version is one of them: nothing is run then either.
-/

namespace CleanDiff

/-- The options of a run. -/
structure Options where
  verbose : Bool := false
  dryRun : Bool := false
  json : Bool := false
  /-- The revision to compare with. -/
  revision : Option Text := none
  /-- Names of directories that are not entered, in the order given. -/
  exclude : List Text := []
  /-- The configuration file to use in place of the usual one. -/
  config : Option Text := none
  /-- The files and directories to clean. -/
  paths : List Text := []
  deriving DecidableEq, Repr

/-- Why a command line runs nothing. -/
inductive UsageError
  /-- Help was asked for. -/
  | help
  /-- The version was asked for. -/
  | version
  /-- There is no such option. -/
  | unknownArgument
  /-- No file or directory is named. -/
  | missingPath
  /-- An option has no value, or a value that it cannot have. -/
  | invalidValue
  /-- An option that may be given once is given twice. -/
  | repeatedOption
  /-- An option that takes no value is given one. -/
  | unneededValue
  deriving DecidableEq, Repr

namespace UsageError

/-- The exit code of a command line that runs nothing. -/
def exitCode : UsageError → Nat
  | .help => 0
  | .version => 0
  | _ => 2

end UsageError

/-- The name and version of the program. -/
def versionLine : String := "unnoise 0.1.0"

end CleanDiff
