import CleanDiff.Text.Basic

/-!
# Edit scripts

An *edit script* turns a reference sequence into a working sequence: it keeps
some runs, drops some and adds some. Each edit carries the run it is about, so a
script has both sequences in it, and a script *covers* two sequences when its two
sides are exactly these. No positions are stored; they follow from the runs.
-/

namespace CleanDiff

/-- One step of an edit script, with the run of items it is about. -/
inductive Edit (α : Type)
  | keep (run : List α)
  | drop (run : List α)
  | add (run : List α)
  deriving DecidableEq, Repr

/-- The three kinds of edits. -/
inductive EditKind
  | keep
  | drop
  | add
  deriving DecidableEq, Repr

namespace Edit

variable {α : Type}

/-- The kind of an edit. -/
def kind : Edit α → EditKind
  | .keep _ => .keep
  | .drop _ => .drop
  | .add _ => .add

/-- The items an edit takes from the reference side. -/
def reference : Edit α → List α
  | .keep run => run
  | .drop run => run
  | .add _ => []

/-- The items an edit leaves on the working side. -/
def working : Edit α → List α
  | .keep run => run
  | .drop _ => []
  | .add run => run

/-- The items an edit keeps. -/
def kept : Edit α → List α
  | .keep run => run
  | .drop _ => []
  | .add _ => []

/-- The items an edit is about. -/
def run : Edit α → List α
  | .keep run => run
  | .drop run => run
  | .add run => run

/-- Keep a run, if there is anything in it. -/
def keepRun : List α → List (Edit α)
  | [] => []
  | a :: run => [.keep (a :: run)]

/-- Drop a run, if there is anything in it. -/
def dropRun : List α → List (Edit α)
  | [] => []
  | a :: run => [.drop (a :: run)]

/-- Add a run, if there is anything in it. -/
def addRun : List α → List (Edit α)
  | [] => []
  | a :: run => [.add (a :: run)]

end Edit

/-- A script covers two sequences when its sides are exactly these. -/
def Covers {α : Type} (script : List (Edit α)) (reference working : List α) : Prop :=
  script.flatMap Edit.reference = reference ∧ script.flatMap Edit.working = working

namespace Covers

variable {α : Type}

theorem append {s t : List (Edit α)} {r r' w w' : List α}
    (hs : Covers s r w) (ht : Covers t r' w') : Covers (s ++ t) (r ++ r') (w ++ w') := by
  simp [Covers, hs.1, hs.2, ht.1, ht.2]

theorem keepRun (run : List α) : Covers (Edit.keepRun run) run run := by
  cases run <;> simp [Covers, Edit.keepRun, Edit.reference, Edit.working]

theorem dropRun (run : List α) : Covers (Edit.dropRun run) run [] := by
  cases run <;> simp [Covers, Edit.dropRun, Edit.reference, Edit.working]

theorem addRun (run : List α) : Covers (Edit.addRun run) [] run := by
  cases run <;> simp [Covers, Edit.addRun, Edit.reference, Edit.working]

end Covers

end CleanDiff
