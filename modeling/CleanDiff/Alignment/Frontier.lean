import CleanDiff.Text.Basic

/-!
# Where two searches meet

The shortest edit script between two sequences is a path through their grid. It
is searched from both corners at once: after `d` rounds each search knows, for
every diagonal of the grid, how far `d` steps can reach, and that record is its
*frontier*. Where the two frontiers overlap lies a point of a shortest path, at
which the problem can be cut in two.

The backward search is the forward search on the reversed sequences. Diagonals
run from `d` down to `-d` in steps of two, and the first overlap found in this
order is the answer; which of several shortest scripts is found hangs on it.
-/

namespace CleanDiff

/-- How far a search has come on each diagonal. -/
structure Frontier where
  /-- The slot of diagonal zero. -/
  origin : Nat
  /-- The position reached, slot by slot. -/
  reached : Array Int

namespace Frontier

/-- A frontier with room for the diagonals of `rounds` rounds. -/
def empty (rounds : Nat) : Frontier :=
  ⟨rounds + 1, Array.replicate (2 * rounds + 3) 0⟩

/-- The position reached on a diagonal. -/
def get (v : Frontier) (k : Int) : Int := v.reached.getD (k + v.origin).toNat 0

/-- Record the position reached on a diagonal. -/
def set (v : Frontier) (k x : Int) : Frontier :=
  { v with reached := v.reached.setIfInBounds (k + v.origin).toNat x }

/-- Where round `d` starts on diagonal `k`: one step on from the better
neighbour of the round before. -/
def start (v : Frontier) (d k : Int) : Int :=
  if k = -d ∨ (k ≠ d ∧ v.get (k - 1) < v.get (k + 1)) then v.get (k + 1) else v.get (k - 1) + 1

end Frontier

/-- The diagonals of round `d`, in the order in which they are tried. -/
def diagonals (d : Nat) : List Int := (List.range (d + 1)).map fun (i : Nat) => (d : Int) - 2 * i

variable {α : Type} [DecidableEq α]

/-- The length of the run that two sequences share from position `i` of the
first and `j` of the second. -/
def sharedRun (o n : Array α) (i j : Nat) : Nat :=
  if h : i < o.size ∧ j < n.size then
    if o[i] = n[j] then sharedRun o n (i + 1) (j + 1) + 1 else 0
  else 0
termination_by o.size - i

/-- The end of the shared run from position `x` on diagonal `k`; a start outside
the grid stays where it is. -/
def slide (o n : Array α) (x k : Int) : Int :=
  if x < o.size ∧ 0 ≤ x - k ∧ x - k < n.size then
    x + sharedRun o n x.toNat (x - k).toNat
  else x

/-- A point at which two searches overlap: the diagonal, and the position on it
before and after the shared run. -/
structure Meeting where
  diagonal : Int
  before : Int
  behind : Int

/-- One round of one search: advance on every diagonal, until `meets` says that
a position on a diagonal overlaps with the other search. -/
def sweep (o n : Array α) (d : Nat) (meets : Int → Int → Bool) (v : Frontier) :
    Except Meeting Frontier :=
  (diagonals d).foldlM (fun v k =>
    let x := v.start d k
    let x' := slide o n x k
    if meets k x' then .error ⟨k, x, x'⟩ else .ok (v.set k x')) v

/-- Two sequences and their reverses. -/
structure Grid (α : Type) where
  old : Array α
  new : Array α
  oldReversed : Array α
  newReversed : Array α

namespace Grid

/-- The grid of two sequences. -/
def ofLists (o n : List α) : Grid α :=
  ⟨o.toArray, n.toArray, o.reverse.toArray, n.reverse.toArray⟩

/-- The diagonal of the far corner. -/
def delta (g : Grid α) : Int := (g.old.size : Int) - (g.new.size : Int)

/-- Rounds `d`, `d + 1`, … of both searches, `fuel` of them at most. If the far
corner lies on an odd diagonal the overlap shows in the forward search, else in
the backward one. -/
def meet (g : Grid α) : (fuel d : Nat) → (forward backward : Frontier) → Option (Int × Int)
  | 0, _, _, _ => none
  | fuel + 1, d, forward, backward =>
      let odd := g.delta % 2 = 1
      let far := (g.old.size : Int)
      let meetsForward := fun k x =>
        odd ∧ (k - g.delta).natAbs + 1 ≤ d ∧ far ≤ x + backward.get (g.delta - k)
      match sweep g.old g.new d (fun k x => meetsForward k x) forward with
      | .error m => some (m.before, m.before - m.diagonal)
      | .ok forward =>
          let meetsBackward := fun k x =>
            ¬ odd ∧ (k - g.delta).natAbs ≤ d ∧ far ≤ x + forward.get (g.delta - k)
          match sweep g.oldReversed g.newReversed d (fun k x => meetsBackward k x) backward with
          | .error m =>
              some (far - m.behind, (g.new.size : Int) - (m.behind - m.diagonal))
          | .ok backward => g.meet fuel (d + 1) forward backward

end Grid

/-- A point at which two sequences can be cut into two smaller problems: it lies
in the grid, and it is neither of its corners. -/
def IsCut (o n : List α) (x y : Nat) : Prop :=
  x ≤ o.length ∧ y ≤ n.length ∧ 0 < x + y ∧ x + y < o.length + n.length

instance (o n : List α) (x y : Nat) : Decidable (IsCut o n x y) := by
  unfold IsCut; infer_instance

/-- The cut at which a shortest script between two sequences is divided. -/
def cutPoint (o n : List α) : Option (Nat × Nat) :=
  let rounds := (o.length + n.length + 1) / 2 + 1
  let v := Frontier.empty rounds
  match (Grid.ofLists o n).meet rounds 0 v v with
  | some (x, y) => if IsCut o n x.toNat y.toNat then some (x.toNat, y.toNat) else none
  | none => none

omit [DecidableEq α] in
theorem IsCut.take_lt {o n : List α} {x y : Nat} (h : IsCut o n x y) :
    (o.take x).length + (n.take y).length < o.length + n.length := by
  obtain ⟨h1, h2, h3, h4⟩ := h
  simp; omega

omit [DecidableEq α] in
theorem IsCut.drop_lt {o n : List α} {x y : Nat} (h : IsCut o n x y) :
    (o.drop x).length + (n.drop y).length < o.length + n.length := by
  obtain ⟨h1, h2, h3, h4⟩ := h
  simp; omega

theorem isCut_of_cutPoint {o n : List α} {p : Nat × Nat} (h : cutPoint o n = some p) :
    IsCut o n p.1 p.2 := by
  simp only [cutPoint] at h
  split at h
  · split at h
    · cases h; assumption
    · simp at h
  · simp at h

end CleanDiff
