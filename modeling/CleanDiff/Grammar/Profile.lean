import CleanDiff.Grammar.Basic
import CleanDiff.Text.Blank

/-!
# Profiles: which grammar a file has

A *profile* is a grammar, or none for a file in which nothing is a comment. It
follows from the file's extension: a built-in table answers for the usual ones,
and a *registry* of overrides written by the user goes before the table. An
override may also name no grammar at all, which switches comment handling off.

Extensions are compared in canonical form, without leading dots and in lower
case, so `.PY` and `py` are one extension.
-/

namespace CleanDiff

/-- A written name that is no grammar. -/
structure UnknownGrammar where
  name : String
  deriving DecidableEq, Repr

/-- The message for a name that is no grammar. -/
def UnknownGrammar.message (e : UnknownGrammar) : String :=
  "Unknown comment grammar '" ++ e.name ++ "' (expected one of: " ++
    ", ".intercalate (Grammar.all.map Grammar.name) ++ ", none)"

/-- The ASCII letters of a string in lower case. -/
def lowerAscii (s : String) : String := String.ofList (s.toList.map Char.toLower)

namespace Grammar

/-- Read a grammar's name; blanks around it and letter case do not matter. -/
def parse (s : String) : Except UnknownGrammar Grammar :=
  match ofName? (lowerAscii (String.ofList (Text.trim s.toList))) with
  | some g => .ok g
  | none => .error ⟨s⟩

/-- Read a profile: a grammar's name, or `none`. -/
def parseProfile (s : String) : Except UnknownGrammar (Option Grammar) :=
  if lowerAscii (String.ofList (Text.trim s.toList)) = "none" then .ok none
  else (parse s).map some

/-- The extensions that the built-in table gives each grammar. -/
def extensions : Grammar → List String
  | .hash => ["py", "pyw", "rb", "sh", "yaml", "yml", "toml", "dockerfile"]
  | .cStyle => ["c", "cpp", "h", "hpp", "js", "ts", "java", "cs", "go", "rs", "swift", "kt",
      "scala", "dart", "php", "css", "scss", "less"]
  | .jsx => ["jsx", "tsx"]
  | .markup => ["html", "xml", "svg", "vue", "svelte"]
  | .sql => ["sql"]
  | .lua => ["lua"]

end Grammar

/-- An extension without leading dots and in lower case. -/
def canonicalExtension (ext : String) : String :=
  lowerAscii (String.ofList (ext.toList.dropWhile (· = '.')))

/-- The profile that the built-in table gives an extension. -/
def builtinGrammar (ext : String) : Option Grammar :=
  Grammar.all.find? fun g => g.extensions.contains (canonicalExtension ext)

/-- Profiles by extension: overrides, each under a canonical extension and the
newest first, in front of the built-in table. -/
structure Registry where
  overrides : List (String × Option Grammar) := []
  deriving DecidableEq, Repr

namespace Registry

/-- Override the profile of an extension. -/
def insert (r : Registry) (ext : String) (profile : Option Grammar) : Registry :=
  ⟨(canonicalExtension ext, profile) :: r.overrides⟩

/-- The profile of an extension. -/
def grammarFor (r : Registry) (ext : String) : Option Grammar :=
  match r.overrides.lookup (canonicalExtension ext) with
  | some profile => profile
  | none => builtinGrammar ext

/-- The profile of a file that may have no extension. -/
def grammarForFile (r : Registry) (ext : Option String) : Option Grammar :=
  ext.bind r.grammarFor

/-- Insert overrides given as written names, in order; the first name that is no
grammar is the error. -/
def insertAll (r : Registry) : List (String × String) → Except UnknownGrammar Registry
  | [] => .ok r
  | (ext, name) :: rest => do (r.insert ext (← Grammar.parseProfile name)).insertAll rest

end Registry

end CleanDiff
