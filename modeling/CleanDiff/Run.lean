import CleanDiff.Cleaner
import CleanDiff.CommandLine.Reader
import CleanDiff.Config.Load
import CleanDiff.Disk.WorkTree
import CleanDiff.Report.Render
import CleanDiff.Repository.Reference

/-!
# Runs on a disk

A run begins with the repository that contains the directory it is started in:
its settings and its reference revision make the cleaner, which then goes through
the arguments. A command line is such a run, started in the current directory,
with its report printed.
-/

namespace CleanDiff

/-- What a run is asked to do besides its settings. -/
structure RunOptions where
  dryRun : Bool := false
  /-- The revision to compare with, in place of the one in the settings. -/
  revision : Option Text := none
  /-- Names of directories that are not entered, besides those in the settings. -/
  excludeDirs : List Text := []
  /-- The configuration file to use in place of the repository's own. -/
  configPath : Option Path := none
  deriving DecidableEq, Repr

namespace Cleaner

/-- The cleaner for the repository that contains a path. -/
def forRepository (d : Disk) (start : Path) (options : RunOptions) :
    Except CleanError (Cleaner Disk) := do
  let root ← match Repository.rootAround d start with
    | .ok root => pure root
    | .error _ => throw (.noRepository start)
  let config ← (match options.configPath with
    | some path => Config.readFrom d path
    | none => Config.ofWorkTree d root).mapError .file
  let registry ← config.grammars
  let revision := options.revision.getD config.revision
  let reference ← (Reference.around d root revision).mapError .repository
  return {
    reference := fun d path => reference.content d path
    registry
    dryRun := options.dryRun
    excludeDirs := config.excludeDirs ++ options.excludeDirs }

end Cleaner

/-- What a command line leaves behind. -/
structure CommandResult where
  exitCode : Nat
  /-- What is printed. -/
  printed : Text
  /-- What is said about an error that kept the run from its work. -/
  complaint : Option Text
  deriving DecidableEq, Repr

namespace Options

/-- What a run with these options is asked to do. -/
def toRunOptions (o : Options) : RunOptions :=
  { dryRun := o.dryRun
    revision := o.revision
    excludeDirs := o.exclude
    configPath := o.config.map Path.ofText }

/-- Print a report as the options ask for. -/
def render (o : Options) (p : Palette) (r : Report) : Text :=
  if o.json then r.prettyJson else r.listing p

end Options

/-- How the program is used. -/
def helpText : String :=
  "Revert formatting and comment noise in working-copy files\n\n" ++
  "Usage: unnoise [OPTIONS] <PATHS>...\n\n" ++
  "Arguments:\n" ++
  "  <PATHS>...  Files or directories to clean\n\n" ++
  "Options:\n" ++
  "  -v, --verbose        Enable verbose output\n" ++
  "      --dry-run        Report what would change without writing files\n" ++
  "      --json           Output the run report as JSON\n" ++
  "      --rev <REV>      Revision to compare against\n" ++
  "      --exclude <DIR>  Directory name to skip when walking directories (repeatable)\n" ++
  "      --config <FILE>  Configuration file to use\n" ++
  "  -h, --help           Print help\n" ++
  "  -V, --version        Print version\n"

/-- What a run leaves behind that an error kept from its work. -/
def CommandResult.failed (p : Palette) (message : String) : CommandResult :=
  ⟨1, [], some (p.paint .failed "error".toList ++ (": " ++ message).toList)⟩

/-- Run with these options in the current directory. -/
def runOptions (d : Disk) (p : Palette) (o : Options) : Disk × CommandResult :=
  match d.currentPath with
  | .error e => (d, .failed p e.message)
  | .ok current =>
      match Cleaner.forRepository d (.ofBytes current) o.toRunOptions with
      | .error e => (d, .failed p e.message)
      | .ok cleaner =>
          let (d, report) := cleaner.cleanAll d (o.paths.map Path.ofText)
          (d, ⟨0, o.render p report, none⟩)

/-- Run a command line in the current directory. -/
def runCommand (d : Disk) (p : Palette) (args : List Text) (environment : Option Text) :
    Disk × CommandResult :=
  match Options.parse args environment with
  | .ok o => runOptions d p o
  | .error e =>
      let printed := match e with
        | .help => helpText.toList
        | .version => (versionLine ++ "\n").toList
        | _ => []
      (d, ⟨e.exitCode, printed, none⟩)

end CleanDiff
