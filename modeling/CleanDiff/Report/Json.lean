import CleanDiff.Json.Printer
import CleanDiff.Report.Basic

/-!
# Reports as JSON

Every record is an object whose keys are in alphabetical order, and an outcome
says in its member `status` which of the two kinds it is. Written for the user,
a report carries its summary along.

Reading is more liberal than writing: members may stand in any order, members
that mean nothing are passed over (so the summary is), and a record may also be
an array of its fields in their fixed order, an outcome with its status in
front.
-/

namespace CleanDiff

/-! ### Writing -/

def FileOutcome.toJson : FileOutcome → Json
  | .processed path rewritten reversions => .ofMembers
      [("path", .str path.text), ("reversions", .nat reversions), ("rewritten", .bool rewritten),
        ("status", .ofString "processed")]
  | .skipped path reason => .ofMembers
      [("path", .str path.text), ("reason", .ofString reason.name),
        ("status", .ofString "skipped")]

def FileFailure.toJson (f : FileFailure) : Json :=
  .ofMembers [("error", .ofString f.error), ("path", .str f.path.text)]

def Summary.toJson (s : Summary) : Json := .ofMembers
  [("failed", .nat s.failed), ("files", .nat s.files), ("reversions", .nat s.reversions),
    ("rewritten", .nat s.rewritten), ("skipped", .nat s.skipped)]

/-- A report with its summary. -/
def Report.toJson (r : Report) : Json := .ofMembers
  [("dry_run", .bool r.dryRun), ("failures", .arr (r.failures.map FileFailure.toJson)),
    ("files", .arr (r.files.map FileOutcome.toJson)), ("summary", r.summary.toJson)]

/-! ### Reading -/

namespace Json

/-- The fields of a record with these names, in order, whether it is written as
an object or as an array. -/
def fields? (names : List String) : Json → Option (List Json)
  | .arr items => if items.length = names.length then some items else none
  | .obj members => names.mapM fun name => members.reverse.lookup name.toList
  | _ => none

end Json

/-- Read a reason: its name, or an object with the name as its only key and
nothing behind it. -/
def SkipReason.ofJson? : Json → Option SkipReason
  | .str s => ofName? (String.ofList s)
  | .obj [(key, .null)] => ofName? (String.ofList key)
  | .obj [(key, .obj [])] => ofName? (String.ofList key)
  | _ => none

/-- Read the fields of an outcome whose status is known. -/
def FileOutcome.ofFields? (status : Text) (fields : Json) : Option FileOutcome :=
  if status = "processed".toList then do
    match ← fields.fields? ["path", "rewritten", "reversions"] with
    | [path, rewritten, reversions] =>
        return .processed ⟨← path.str?⟩ (← rewritten.bool?) (← reversions.word64?)
    | _ => none
  else if status = "skipped".toList then do
    match ← fields.fields? ["path", "reason"] with
    | [path, reason] => return .skipped ⟨← path.str?⟩ (← SkipReason.ofJson? reason)
    | _ => none
  else none

def FileOutcome.ofJson? : Json → Option FileOutcome
  | .arr (.str status :: rest) => ofFields? status (.arr rest)
  | .obj members => do ofFields? (← (Json.obj members).get "status".toList |>.str?) (.obj members)
  | _ => none

def FileFailure.ofJson? (v : Json) : Option FileFailure := do
  match ← v.fields? ["path", "error"] with
  | [path, error] => return ⟨⟨← path.str?⟩, String.ofList (← error.str?)⟩
  | _ => none

def Report.ofJson? (v : Json) : Option Report := do
  match ← v.fields? ["dry_run", "files", "failures"] with
  | [dryRun, files, failures] =>
      return ⟨← dryRun.bool?, ← (← files.arr?).mapM FileOutcome.ofJson?,
        ← (← failures.arr?).mapM FileFailure.ofJson?⟩
  | _ => none

end CleanDiff
