import CleanDiff.Alignment.Region
import CleanDiff.Signature
import CleanDiff.Text.Line

/-!
# Verdicts: which side of a region stays

Where the two sides of a region differ by noise only, the reference lines come
back; where they differ in meaning, the working lines stay. A changed region
with equally many lines on both sides that differs in meaning as a whole is
judged line by line. A restored piece counts as a *reversion* when it is not
already what the working text says.

`denoise` does this for every region of two texts and joins the lines chosen.
-/

namespace CleanDiff

/-- A side of a region, or of a pair of lines. -/
inductive Side
  | reference
  | working
  deriving DecidableEq, Repr

/-- How a region was judged. -/
inductive Ruling
  /-- Both sides are the same lines. -/
  | unchanged
  /-- One side stays for the whole region. -/
  | whole (side : Side)
  /-- One side stays for each pair of lines. -/
  | perLine (sides : List Side)
  deriving DecidableEq, Repr

/-- The lines chosen for a region. -/
structure Verdict where
  lines : List Text
  reversions : Nat
  ruling : Ruling
  deriving DecidableEq, Repr

/-- The side of a pair of lines that stays. -/
def stayingSide (profile : Option Grammar) (reference working : Text) : Side :=
  if sameMeaning profile reference working then .reference else .working

/-- The line on a side. -/
def Side.pick (side : Side) (reference working : Text) : Text :=
  match side with
  | .reference => reference
  | .working => working

namespace Region

/-- Judge a region pair of lines by pair of lines. -/
def judgeLines (profile : Option Grammar) (r : Region) : Verdict :=
  let pairs := r.reference.zip r.working
  let chosen := pairs.map fun p => (stayingSide profile p.1 p.2).pick p.1 p.2
  { lines := chosen
    reversions := (chosen.zip (pairs.map Prod.snd)).countP fun p => p.1 ≠ p.2
    ruling := .perLine (pairs.map fun p => stayingSide profile p.1 p.2) }

/-- Judge a region. -/
def judge (profile : Option Grammar) (r : Region) : Verdict :=
  let reference := r.reference.flatten
  let working := r.working.flatten
  if r.kind = .equal then ⟨r.reference, 0, .unchanged⟩
  else if sameMeaning profile reference working then
    ⟨r.reference, if reference = working then 0 else 1, .whole .reference⟩
  else if r.kind = .replace ∧ r.reference.length = r.working.length then
    r.judgeLines profile
  else ⟨r.working, 0, .whole .working⟩

end Region

/-- A working text with its noise taken back. -/
structure Denoised where
  content : Text
  reversions : Nat
  deriving DecidableEq, Repr

/-- Take the noise back that a working text has against its reference text. -/
def denoise (profile : Option Grammar) (reference working : Text) : Denoised :=
  let verdicts := (align reference.lines working.lines).map (Region.judge profile)
  { content := (verdicts.flatMap (·.lines)).flatten
    reversions := verdicts.foldr (fun v n => v.reversions + n) 0 }

end CleanDiff
