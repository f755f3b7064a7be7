import CleanDiff.Alignment.Edit
import CleanDiff.Alignment.Frontier

/-!
# The shortest script by division

Two sequences are aligned by keeping what they share at both ends and cutting
what is left in the middle of a shortest script, until one side is used up.
`covers_divide` says that the script found covers the two sequences.
-/

namespace CleanDiff

variable {α : Type} [DecidableEq α]

/-- Cut the longest common beginning off two sequences. -/
def splitShared : List α → List α → List α × List α × List α
  | a :: o, b :: n =>
      if a = b then (splitShared o n).map (fun shared => a :: shared) id
      else ([], a :: o, b :: n)
  | o, n => ([], o, n)

theorem splitShared_old (o n : List α) :
    (splitShared o n).1 ++ (splitShared o n).2.1 = o := by
  fun_induction splitShared o n <;> simp_all

theorem splitShared_new (o n : List α) :
    (splitShared o n).1 ++ (splitShared o n).2.2 = n := by
  fun_induction splitShared o n <;> simp_all

/-- Cut the longest common end off two sequences; the end comes first. -/
def splitSharedEnd (o n : List α) : List α × List α × List α :=
  let cut := splitShared o.reverse n.reverse
  (cut.1.reverse, cut.2.1.reverse, cut.2.2.reverse)

theorem splitSharedEnd_old (o n : List α) :
    (splitSharedEnd o n).2.1 ++ (splitSharedEnd o n).1 = o := by
  have := splitShared_old o.reverse n.reverse
  simp only [splitSharedEnd, ← List.reverse_append, this, List.reverse_reverse]

theorem splitSharedEnd_new (o n : List α) :
    (splitSharedEnd o n).2.2 ++ (splitSharedEnd o n).1 = n := by
  have := splitShared_new o.reverse n.reverse
  simp only [splitSharedEnd, ← List.reverse_append, this, List.reverse_reverse]

/-- Two sequences cut into what they share at their ends and the rest between. -/
structure Trimmed (α : Type) where
  front : List α
  old : List α
  new : List α
  back : List α

/-- Cut the common beginning and then the common end off two sequences. -/
def trimShared (o n : List α) : Trimmed α :=
  let lead := splitShared o n
  let tail := splitSharedEnd lead.2.1 lead.2.2
  ⟨lead.1, tail.2.1, tail.2.2, tail.1⟩

theorem trimShared_old (o n : List α) :
    (trimShared o n).front ++ ((trimShared o n).old ++ (trimShared o n).back) = o := by
  simp only [trimShared, splitSharedEnd_old, splitShared_old]

theorem trimShared_new (o n : List α) :
    (trimShared o n).front ++ ((trimShared o n).new ++ (trimShared o n).back) = n := by
  simp only [trimShared, splitSharedEnd_new, splitShared_new]

theorem trimShared_length (o n : List α) :
    (trimShared o n).old.length + (trimShared o n).new.length ≤ o.length + n.length := by
  have h1 := congrArg List.length (trimShared_old o n)
  have h2 := congrArg List.length (trimShared_new o n)
  simp at h1 h2
  omega

/-- A script for the rest of two sequences, between what they share. -/
def Trimmed.around (t : Trimmed α) (middle : List (Edit α)) : List (Edit α) :=
  Edit.keepRun t.front ++ (middle ++ Edit.keepRun t.back)

theorem covers_around {o n : List α} {middle : List (Edit α)}
    (h : Covers middle (trimShared o n).old (trimShared o n).new) :
    Covers ((trimShared o n).around middle) o n := by
  have := (Covers.keepRun (trimShared o n).front).append
    (h.append (Covers.keepRun (trimShared o n).back))
  rwa [trimShared_old, trimShared_new] at this

/-- A shortest script between two sequences. -/
def divide (o n : List α) : List (Edit α) :=
  let t := trimShared o n
  if t.old = [] ∨ t.new = [] then t.around (Edit.dropRun t.old ++ Edit.addRun t.new)
  else
    match h : cutPoint t.old t.new with
    | none => t.around [.drop t.old, .add t.new]
    | some p =>
        have := Nat.lt_of_lt_of_le (isCut_of_cutPoint h).take_lt (trimShared_length o n)
        have := Nat.lt_of_lt_of_le (isCut_of_cutPoint h).drop_lt (trimShared_length o n)
        t.around <|
          divide (t.old.take p.1) (t.new.take p.2) ++ divide (t.old.drop p.1) (t.new.drop p.2)
termination_by o.length + n.length
decreasing_by all_goals assumption

/-- The script found covers the two sequences. -/
theorem covers_divide (o n : List α) : Covers (divide o n) o n := by
  fun_induction divide o n with
  | case1 o n t _ =>
    apply covers_around
    simpa using (Covers.dropRun t.old).append (Covers.addRun t.new)
  | case2 o n t _ _ =>
    apply covers_around
    simp [Covers, Edit.reference, Edit.working, t]
  | case3 o n t _ p _ _ _ ih1 ih2 =>
    apply covers_around
    simpa only [List.take_append_drop] using ih1.append ih2

end CleanDiff
