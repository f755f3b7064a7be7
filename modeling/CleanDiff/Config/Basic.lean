import CleanDiff.Config.Toml
import CleanDiff.Failure
import CleanDiff.Json.Reader

/-!
# Configuration

A repository may hold a configuration file: the revision to compare with, names
of directories that are not entered, and grammars for extensions. All of it is
optional, and nothing else may stand in the file. The same settings can be
written as TOML or as JSON; which of the two a file is follows from its
extension.
-/

namespace CleanDiff

/-- The settings of a repository. -/
structure Config where
  /-- The revision that working files are compared with. -/
  reference : Option Text := none
  /-- Names of directories that are not entered. -/
  excludeDirs : List Text := []
  /-- Extensions with the names of their grammars, each extension once and in
  ascending order. -/
  extensions : List (Text × Text) := []
  /-- The file that the settings come from. -/
  source : Option Path := none
  deriving DecidableEq, Repr

/-- Put an entry into a list of entries in ascending order of their keys; an
entry with the same key gives way. -/
def insertSorted (key value : Text) : List (Text × Text) → List (Text × Text)
  | [] => [(key, value)]
  | entry :: rest =>
      if key < entry.1 then (key, value) :: entry :: rest
      else if key = entry.1 then (key, value) :: rest
      else entry :: insertSorted key value rest

namespace Config

/-- The name of the configuration file of a repository. -/
def fileName : Text := ".unnoise.toml".toList

/-- The revision when none is named. -/
def defaultRevision : Text := "HEAD".toList

/-- The revision that working files are compared with. -/
def revision (c : Config) : Text := c.reference.getD defaultRevision

/-! ### Settings in TOML -/

/-- How the table of extensions was written so far. -/
inductive Section
  /-- Not at all. -/
  | unwritten
  /-- By dotted keys, which may be followed by more of them. -/
  | dotted
  /-- In one piece, as an inline table or under a header. -/
  | closed
  deriving DecidableEq, Repr

/-- Settings read from statements so far. -/
structure Draft where
  config : Config := {}
  hasExcludes : Bool := false
  extensions : Section := .unwritten
  /-- Do assignments go to the table of extensions? -/
  inExtensions : Bool := false

namespace Draft

/-- Give an extension a grammar; no extension is given two. -/
def addExtension (d : Draft) (ext grammar : Text) : Option Draft :=
  if (d.config.extensions.lookup ext).isSome then none
  else some { d with
    config := { d.config with extensions := insertSorted ext grammar d.config.extensions } }

/-- Take in the members of an inline table. -/
def addMembers (d : Draft) (members : List (Toml.Key × Text)) : Option Draft :=
  members.foldlM (fun d m =>
    match m.1 with
    | [ext] => d.addExtension ext m.2
    | _ => none) d

/-- The key under which a table holds a date. -/
def momentKey : Text := "$__toml_private_datetime".toList

/-- Take in an assignment outside of the table of extensions. -/
def assign (d : Draft) (key : List String) (last : Text) (value : Toml.Value) : Option Draft :=
  match key, value with
  | ["reference"], .str s =>
      if d.config.reference.isSome then none
      else some { d with config := { d.config with reference := some s } }
  | ["exclude_dirs"], .strs items =>
      if d.hasExcludes then none
      else some { d with hasExcludes := true, config := { d.config with excludeDirs := items } }
  | ["extensions"], .table members =>
      if d.extensions = .unwritten then ({ d with extensions := .closed }).addMembers members
      else none
  | ["extensions"], .moment m =>
      if d.extensions = .unwritten then
        ({ d with extensions := .closed }).addExtension momentKey m.toText
      else none
  | ["extensions", _], .str s =>
      if d.extensions = .closed then none
      else ({ d with extensions := .dotted }).addExtension last s
  | _, _ => none

/-- Take in a statement. -/
def step (d : Draft) (statement : Toml.Statement) : Option Draft :=
  match statement with
  | .header key =>
      if key.map String.ofList = ["extensions"] ∧ d.extensions = .unwritten then
        some { d with extensions := .closed, inExtensions := true }
      else none
  | .assign key value =>
      if d.inExtensions then
        match key, value with
        | [ext], .str s => d.addExtension ext s
        | _, _ => none
      else d.assign (key.map String.ofList) (key.getLast?.getD []) value

end Draft

/-- The settings of a TOML document. -/
def ofToml? (t : Text) : Option Config := do
  let statements ← Toml.parse? t
  let draft ← statements.foldlM Draft.step {}
  return draft.config

/-! ### Settings in JSON -/

/-- A table of extensions; of two members with one key the last counts. -/
def extensionsOfJson? : Json → Option (List (Text × Text))
  | .obj members =>
      members.foldlM (fun entries m => m.2.str?.map fun s => insertSorted m.1 s entries) []
  | _ => none

/-- The revision, which may be null. -/
def referenceOfJson? : Json → Option (Option Text)
  | .null => some none
  | .str s => some (some s)
  | _ => none

/-- The settings of a JSON document: an object with no key twice, or an array of
the settings in their fixed order, cut off where the rest is left out. -/
def ofJson? (v : Json) : Option Config :=
  match v with
  | .arr items =>
      match items with
      | [] => some {}
      | [r] => do return { reference := ← referenceOfJson? r }
      | [r, d] => do return { reference := ← referenceOfJson? r, excludeDirs := ← d.strs? }
      | [r, d, e] => do
          return { reference := ← referenceOfJson? r, excludeDirs := ← d.strs?,
                   extensions := ← extensionsOfJson? e }
      | _ => none
  | .obj members =>
      if (members.map Prod.fst).Nodup then
        members.foldlM (fun c m =>
          match String.ofList m.1 with
          | "reference" => (referenceOfJson? m.2).map fun r => { c with reference := r }
          | "exclude_dirs" => m.2.strs?.map fun d => { c with excludeDirs := d }
          | "extensions" => (extensionsOfJson? m.2).map fun e => { c with extensions := e }
          | _ => none) {}
      else none
  | _ => none

/-! ### Configuration files -/

/-- The format that an extension stands for, in upper or lower case. -/
def formatOf? (extension : Text) : Option ConfigFormat :=
  match lowerAscii (String.ofList extension) with
  | "toml" => some .toml
  | "json" => some .json
  | _ => none

/-- The settings that a file with this content holds. -/
def ofContent (path : Path) (content : Text) : Except FileError Config :=
  let extension := path.extension?.getD []
  match formatOf? extension with
  | none => .error (.unsupportedFormat extension)
  | some format =>
      let config := match format with
        | .toml => ofToml? content
        | .json => (Json.parse? content).bind ofJson?
      match config with
      | some config => .ok { config with source := some path }
      | none => .error (.configParse path format)

/-- The profiles that the settings ask for. -/
def grammars (c : Config) : Except CleanError Registry :=
  let named := c.extensions.map fun e => (String.ofList e.1, String.ofList e.2)
  match Registry.insertAll {} named with
  | .ok r => .ok r
  | .error e => .error (.config (c.source.getD ⟨fileName⟩) e)

end Config

end CleanDiff
