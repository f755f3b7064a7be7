import CleanDiff.Grammar.Profile
import CleanDiff.Path

/-!
# What can go wrong

Errors are causes: what happened, and to which path. How a cause is put into
words is decided here, once for each kind of error. What only keeps a single
file from being examined is no error but a reason to skip it.
-/

namespace CleanDiff

/-- Why the operating system refuses an operation on a file. -/
inductive IoReason
  | noSuchFile
  /-- The permission bits do not allow the operation. -/
  | forbidden
  | fileExists
  | notADirectory
  | isADirectory
  | fileTooLarge
  | nameTooLong
  | tooManyLinks
  | busy
  /-- A file was read as text and is none. -/
  | notUtf8
  /-- A path holds a zero byte, which no name of a file can. -/
  | zeroByte
  /-- A file that is not in a working tree held in memory. -/
  | absent
  | denied
  | interrupted
  deriving DecidableEq, Repr

/-- An error of the operating system: its number and its words. -/
structure SystemError where
  code : Nat
  words : String
  deriving DecidableEq, Repr

def SystemError.message (e : SystemError) : String :=
  e.words ++ " (os error " ++ toString e.code ++ ")"

namespace IoReason

/-- The error of the operating system that a reason is; none for a reason that is
found without it. -/
def system? : IoReason → Option SystemError
  | .noSuchFile => some ⟨2, "No such file or directory"⟩
  | .forbidden => some ⟨13, "Permission denied"⟩
  | .busy => some ⟨16, "Device or resource busy"⟩
  | .fileExists => some ⟨17, "File exists"⟩
  | .notADirectory => some ⟨20, "Not a directory"⟩
  | .isADirectory => some ⟨21, "Is a directory"⟩
  | .fileTooLarge => some ⟨27, "File too large"⟩
  | .nameTooLong => some ⟨36, "File name too long"⟩
  | .tooManyLinks => some ⟨40, "Too many levels of symbolic links"⟩
  | _ => none

def message : IoReason → String
  | .notUtf8 => "stream did not contain valid UTF-8"
  | .zeroByte => "file name contained an unexpected NUL byte"
  | .absent => "entity not found"
  | .denied => "permission denied"
  | .interrupted => "operation interrupted"
  | reason => (reason.system?.map SystemError.message).getD ""

/-- Does the reason say that there is no such file? -/
def isNotFound : IoReason → Bool
  | .noSuchFile => true
  | .absent => true
  | _ => false

end IoReason

/-- The formats of configuration files. -/
inductive ConfigFormat
  | toml
  | json
  deriving DecidableEq, Repr

def ConfigFormat.name : ConfigFormat → String
  | .toml => "TOML"
  | .json => "JSON"

/-- An error about a file. -/
inductive FileError
  | io (path : Path) (reason : IoReason)
  /-- A configuration file does not say what one can say. -/
  | configParse (path : Path) (format : ConfigFormat)
  | unsupportedFormat (extension : Text)
  | lockFailed (path : Path)
  deriving DecidableEq, Repr

namespace FileError

def message : FileError → String
  | .io path reason => "I/O error at " ++ path.toString ++ ": " ++ reason.message
  | .configParse path format => "Failed to parse " ++ format.name ++ " config at " ++ path.toString
  | .unsupportedFormat extension => "Unsupported config format: " ++ String.ofList extension
  | .lockFailed path => "Lock acquisition failed for " ++ path.toString

/-- Does the error say that there is no such file? -/
def isNotFound : FileError → Bool
  | .io _ reason => reason.isNotFound
  | _ => false

end FileError

/-- An error about a repository. -/
inductive RepositoryError
  /-- A stored object is missing or damaged. -/
  | storage
  /-- No directory from this one up is a repository. -/
  | notInside (path : Path)
  /-- The repository has no working tree. -/
  | bare (path : Path)
  /-- The path does not lie in the working tree. -/
  | outside (path : Path)
  | file (error : FileError)
  deriving DecidableEq, Repr

def RepositoryError.message : RepositoryError → String
  | .storage => "Git error"
  | .notInside path => "Not inside a git repository: " ++ path.toString
  | .bare path => "Repository at " ++ path.toString ++ " has no working tree"
  | .outside path => "Path " ++ path.toString ++ " is outside the work tree"
  | .file error => "Filesystem error: " ++ error.message

/-- An error of a run. -/
inductive CleanError
  /-- The run was started outside of any working tree. -/
  | noRepository (path : Path)
  /-- The cleaned text could not be written back. -/
  | writeFailure (path : Path) (cause : FileError)
  /-- A configuration file names a grammar that there is not. -/
  | config (path : Path) (cause : UnknownGrammar)
  | file (cause : FileError)
  | repository (cause : RepositoryError)
  deriving DecidableEq, Repr

def CleanError.message : CleanError → String
  | .noRepository path => "Not in a git repository: " ++ path.toString
  | .writeFailure path cause => "Failed to write " ++ path.toString ++ ": " ++ cause.message
  | .config path cause => "Invalid configuration in " ++ path.toString ++ ": " ++ cause.message
  | .file cause => cause.message
  | .repository cause => cause.message

end CleanDiff
