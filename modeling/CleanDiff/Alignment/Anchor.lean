import CleanDiff.Alignment.Divide

/-!
# Anchors

Lines that occur exactly once on each side are good places to align at: a brace
or a blank line proves little, a line that is alone in both files proves much.
The *anchors* of two sequences are the items that a shortest script between
their unique items keeps. Both sequences are cut in front of each anchor, and
the pieces are aligned one by one.
-/

namespace CleanDiff

variable {α : Type} [DecidableEq α]

/-- The items that occur exactly once, in order. -/
def uniques (l : List α) : List α := l.filter fun a => l.count a = 1

/-- The unique items at which two sequences are aligned. -/
def anchors (o n : List α) : List α := (divide (uniques o) (uniques n)).flatMap Edit.kept

/-- Align two sequences piece by piece, cutting both in front of each anchor. -/
def alignAt : List α → List α → List α → List (Edit α)
  | [], o, n => divide o n
  | a :: rest, o, n =>
      divide (o.takeWhile (· ≠ a)) (n.takeWhile (· ≠ a)) ++
        alignAt rest (o.dropWhile (· ≠ a)) (n.dropWhile (· ≠ a))

/-- A script between two sequences that keeps their anchors. -/
def anchoredScript (o n : List α) : List (Edit α) := alignAt (anchors o n) o n

theorem covers_alignAt (as o n : List α) : Covers (alignAt as o n) o n := by
  induction as generalizing o n with
  | nil => exact covers_divide o n
  | cons a rest ih =>
    have := (covers_divide (o.takeWhile (· ≠ a)) (n.takeWhile (· ≠ a))).append
      (ih (o.dropWhile (· ≠ a)) (n.dropWhile (· ≠ a)))
    simpa only [alignAt, List.takeWhile_append_dropWhile] using this

/-- The script found covers the two sequences. -/
theorem covers_anchoredScript (o n : List α) : Covers (anchoredScript o n) o n :=
  covers_alignAt (anchors o n) o n

end CleanDiff
