import CleanDiff.Report.Json

/-!
# Showing a report

A report is shown as indented JSON, or as one line for each entry with the
summary below. The lines may be coloured: a verb, the paths and the dry-run mark
each stand between the code that switches their colour on and the one that
switches colours off. A path that itself switches colours off gets its colour
switched on again behind that.
-/

namespace CleanDiff

/-- The colours of the listing. -/
inductive Style
  | cleaned
  | checked
  | skipping
  | failed
  | path
  | dryRun
  deriving DecidableEq, Repr

namespace Style

/-- The code that switches a style on. -/
def on : Style → String
  | .cleaned => "\x1b[1;32m"
  | .checked => "\x1b[1;34m"
  | .skipping => "\x1b[2m"
  | .failed => "\x1b[1;31m"
  | .path => "\x1b[33m"
  | .dryRun => "\x1b[36m"

/-- The code that switches all styles off. -/
def off : String := "\x1b[0m"

/-- Write `code` behind every `off` inside a text. -/
def resume (code : Text) : Text → Text
  | [] => []
  | c :: t =>
      if (Text.after? off.toList (c :: t)).isSome then
        -- the rest of the switch is copied as plain characters
        c :: resumeBehind code (off.toList.length - 1) t
      else c :: resume code t
where
  /-- Copy the last characters of a switch, then write the code. -/
  resumeBehind (code : Text) : Nat → Text → Text
    | 0, t => code ++ resume code t
    | _ + 1, [] => code
    | n + 1, c :: t => c :: resumeBehind code n t

end Style

/-- How a listing is shown. -/
structure Palette where
  colored : Bool

namespace Palette

/-- A text in a style; as it is when colours are off. -/
def paint (p : Palette) (style : Style) (t : Text) : Text :=
  if p.colored then style.on.toList ++ Style.resume style.on.toList t ++ Style.off.toList else t

end Palette

namespace Report

/-- The line of one outcome. -/
def outcomeLine (p : Palette) (dryRun : Bool) (o : FileOutcome) : Text :=
  let line (style : Style) (verb : String) (note : String) : Text :=
    p.paint style verb.toList ++ ' ' :: (p.paint .path o.path.text ++ (": " ++ note).toList)
  match o with
  | .processed _ true reversions =>
      line .cleaned (if dryRun then "Would clean" else "Cleaned")
        ("reverted " ++ toString reversions ++ " chunk(s) of noise")
  | .processed _ false 0 => line .checked "Checked" "no noise found"
  | .processed _ false _ => line .checked "Checked" "no effective changes to write"
  | .skipped _ reason => line .skipping "Skipping" reason.name

/-- The line of one failure. -/
def failureLine (p : Palette) (f : FileFailure) : Text :=
  p.paint .failed "Failed".toList ++ ' ' :: (p.paint .path f.path.text ++ (": " ++ f.error).toList)

/-- The line that closes a listing. -/
def summaryLine (p : Palette) (r : Report) : Text :=
  let s := r.summary
  let mark := if r.dryRun then p.paint .dryRun "[dry-run]".toList ++ [' '] else []
  mark ++ (toString s.files ++ " file(s): " ++ toString s.rewritten ++ " rewritten, " ++
    toString s.skipped ++ " skipped, " ++ toString s.failed ++ " failed, " ++
    toString s.reversions ++ " chunk(s) reverted").toList

/-- A report as a listing. -/
def listing (p : Palette) (r : Report) : Text :=
  let entries := r.files.map (outcomeLine p r.dryRun) ++ r.failures.map (failureLine p)
  (entries ++ [[], r.summaryLine p]).flatMap (· ++ ['\n'])

/-- A report as indented JSON. -/
def prettyJson (r : Report) : Text := r.toJson.pretty ++ ['\n']

end Report

end CleanDiff
