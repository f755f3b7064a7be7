import CleanDiff.Repository.Commit
import CleanDiff.Run
import CleanDiff.Text.Quoted

/-!
# Scenarios

A *scenario* is a repository on a disk of its own, for trying out what a run does
to a working tree: write files, commit them, change them, clean, and look at what
they hold. A step that cannot be done, or an expectation that is not met, is a
failure, and the scenario goes on from where it was.
-/

namespace CleanDiff

/-- A repository with its working tree, on a disk. -/
structure Scenario where
  disk : Disk
  repository : Repository
  /-- The path of the working tree. -/
  root : Path

/-- Why a step of a scenario fails. -/
inductive ScenarioFailure
  /-- The directories that lead to a file cannot be made. -/
  | noDirectory (reason : IoReason)
  | unwritable (path : Path) (reason : IoReason)
  | unreadable (path : Path)
  /-- A file does not hold what is expected. -/
  | differs (file expected actual : Text)
  /-- A file does not contain what is expected. -/
  | lacks (file expected actual : Text)
  deriving DecidableEq, Repr

def ScenarioFailure.message : ScenarioFailure → Text
  | .noDirectory reason => reason.message.toList
  | .unwritable path reason => (path.toString ++ ": " ++ reason.message).toList
  | .unreadable path => ("Could not read file: " ++ path.toString).toList
  | .differs file expected actual =>
      "File ".toList ++ file ++ " differs.\nExpected: ".toList ++ Text.quoted expected ++
        "\nActual: ".toList ++ Text.quoted actual
  | .lacks file expected actual =>
      "File ".toList ++ file ++ " does not contain expected content.\nExpected: ".toList ++
        expected ++ "\nActual: ".toList ++ actual

namespace Scenario

/-- An empty repository at a place of an empty disk. -/
def new (place : List Bytes) : Scenario :=
  let d := Repository.putDir {} place
  let (d, r) := Repository.init d place
  ⟨{ d with current := place }, r, .ofBytes (Disk.written place)⟩

/-- The path of a file of the working tree. -/
def path (s : Scenario) (file : Text) : Path := s.root.append file

/-- Write a file, and make the directories that lead to it. -/
def write (s : Scenario) (file : Text) (content : Bytes) :
    Scenario × Except ScenarioFailure Unit :=
  let path := s.path file
  let (d, made) := match path.parent? with
    | some parent => s.disk.createDirs parent.toBytes
    | none => (s.disk, .ok ())
  match made with
  | .error e => ({ s with disk := d }, .error (.noDirectory e))
  | .ok () =>
      match d.overwrite path.toBytes content with
      | .ok d => ({ s with disk := d }, .ok ())
      | .error e => ({ s with disk := d }, .error (.unwritable path e))

/-- The text of a file. -/
def read (s : Scenario) (file : Text) : Except ScenarioFailure Text :=
  match s.disk.readText (s.path file) with
  | .ok t => .ok t
  | .error _ => .error (.unreadable (s.path file))

/-- Commit everything that is there. -/
def commit (s : Scenario) : Scenario :=
  { s with disk := (Repository.commitAll s.disk s.repository []).1 }

/-- The branch that `HEAD` names, once there is a commit on it. -/
def head? (s : Scenario) : Option String :=
  (Repository.head? s.disk s.repository).map fun _ => Repository.firstBranch

/-- Expect a file to hold exactly this. -/
def expectContent (s : Scenario) (file expected : Text) : Except ScenarioFailure Unit := do
  let actual ← s.read file
  if actual = expected then return () else throw (.differs file expected actual)

/-- Expect a file to contain this. -/
def expectPart (s : Scenario) (file expected : Text) : Except ScenarioFailure Unit := do
  let actual ← s.read file
  if Text.hasPart expected actual then return () else throw (.lacks file expected actual)

/-- Clean files of the working tree, with the options that a run has by default. -/
def clean (s : Scenario) (files : List Text) : Except CleanError (Scenario × Report) := do
  let cleaner ← Cleaner.forRepository s.disk s.root {}
  let (d, report) := cleaner.cleanAll s.disk (files.map fun file => .ofText (s.path file).text)
  return ({ s with disk := d }, report)

end Scenario

end CleanDiff
