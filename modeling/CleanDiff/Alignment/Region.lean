import CleanDiff.Alignment.Anchor
import CleanDiff.Alignment.Settle

/-!
# Regions

Aligning the lines of a reference text with those of a working text gives a list
of *regions*. An `equal` region holds lines that both texts share; any run of
drops and adds between two of those is one region, tagged by which of its sides
hold lines. The regions cover both texts, in order.
-/

namespace CleanDiff

/-- What a region says about its two sides. -/
inductive RegionKind
  | equal
  | insert
  | delete
  | replace
  deriving DecidableEq, Repr

/-- The kind of a changed region with these sides. -/
def RegionKind.ofSides {α : Type} (reference working : List α) : RegionKind :=
  if reference = [] then .insert else if working = [] then .delete else .replace

/-- A run of lines of the reference side beside the run of the working side that
stands in its place. -/
structure Region where
  kind : RegionKind
  reference : List Text
  working : List Text
  deriving DecidableEq, Repr

namespace Region

/-- Is the region one that both texts share? -/
def isEqual (r : Region) : Bool := r.kind = .equal

/-- The region of one edit. -/
def ofEdit : Edit Text → Region
  | .keep run => ⟨.equal, run, run⟩
  | .drop run => ⟨.delete, run, []⟩
  | .add run => ⟨.insert, [], run⟩

/-- Two adjacent regions of one sort as one. -/
def join (r s : Region) : Region :=
  let reference := r.reference ++ s.reference
  let working := r.working ++ s.working
  ⟨if r.isEqual then .equal else .ofSides reference working, reference, working⟩

/-- Put a region in front of a list of regions, joining it with the first when
both are equal or both are changed. -/
def onto (r : Region) : List Region → List Region
  | [] => [r]
  | s :: rest => if r.isEqual = s.isEqual then r.join s :: rest else r :: s :: rest

/-- The regions of an edit script; an edit about nothing leaves no trace. -/
def ofScript : List (Edit Text) → List Region
  | [] => []
  | e :: rest => if e.run = [] then ofScript rest else (ofEdit e).onto (ofScript rest)

end Region

/-- Align the lines of two texts. -/
def align (reference working : List Text) : List Region :=
  Region.ofScript (settle (anchoredScript reference working))

end CleanDiff
