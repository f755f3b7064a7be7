import CleanDiff.Alignment.Divide

/-!
# Settling a script

A shortest script is rarely the one a reader would draw. Settling moves every
drop and then every add as far up as it goes and then as far down as it goes:
edits of one kind that meet become one, drops and adds that meet pass each
other, and an add slides over a kept run where the added lines repeat the kept
ones. A drop never slides, so it stops at a kept run.

The script is held at one edit, with what lies before it (the nearest first) and
what lies beyond it. Each move takes something off the side it moves to, so both
moves end; and no move adds an edit of the kind being settled to the far side,
so the pass over the script ends too.
-/

namespace CleanDiff

/-- An edit script held at one of its edits. -/
structure Cursor (α : Type) where
  /-- The edits before, the nearest first. -/
  before : List (Edit α)
  /-- The edit held. -/
  here : Edit α
  /-- The edits beyond. -/
  beyond : List (Edit α)

/-- The room that a list of edits takes: its items, and one for each edit. -/
def room {α : Type} : List (Edit α) → Nat
  | [] => 0
  | e :: rest => e.run.length + 1 + room rest

variable {α : Type}

/-- Put a kept run in front of a script, joining it with a kept run there. -/
def keepOnto (run : List α) : List (Edit α) → List (Edit α)
  | .keep next :: rest => .keep (run ++ next) :: rest
  | rest => .keep run :: rest

/-- Put a kept run behind the edits before, joining it with a kept run there. -/
def keepBehind (run : List α) : List (Edit α) → List (Edit α)
  | .keep last :: rest => .keep (last ++ run) :: rest
  | rest => .keep run :: rest

/-- A kept run at the head of a list of edits, left out when it is empty. -/
def withKeep : List α → List (Edit α) → List (Edit α)
  | [], edits => edits
  | a :: run, edits => .keep (a :: run) :: edits

theorem room_withKeep_lt {k run : List α} (edits : List (Edit α)) (h : run.length < k.length) :
    room (withKeep run edits) < room (.keep k :: edits) := by
  cases run <;> simp_all [withKeep, room, Edit.run]

variable [DecidableEq α]

/-- Move the edit held up, as far as it goes. -/
def raise (before : List (Edit α)) (here : Edit α) (beyond : List (Edit α)) : Cursor α :=
  match before, here with
  | .keep k :: rest, .add a =>
      let cut := splitSharedEnd k a
      if h : cut.1 ≠ [] then
        have : cut.2.1.length < k.length := by
          have := congrArg List.length (splitSharedEnd_old k a)
          have := List.length_pos_iff.2 h
          simp [cut] at *; omega
        have := room_withKeep_lt rest this
        raise (withKeep cut.2.1 rest) (.add (cut.1 ++ cut.2.2)) (keepOnto cut.1 beyond)
      else if k = [] then raise rest (.add a) beyond
      else ⟨before, here, beyond⟩
  | .keep k :: rest, .drop d =>
      if k = [] then raise rest (.drop d) beyond else ⟨before, here, beyond⟩
  | .drop d :: rest, .add a => raise rest (.add a) (.drop d :: beyond)
  | .add a :: rest, .drop d => raise rest (.drop d) (.add a :: beyond)
  | .add b :: rest, .add a => raise rest (.add (b ++ a)) beyond
  | .drop b :: rest, .drop d => raise rest (.drop (b ++ d)) beyond
  | _, _ => ⟨before, here, beyond⟩
termination_by room before
decreasing_by all_goals first | assumption | simp [room]

/-- Move the edit held down, as far as it goes. -/
def lower (before : List (Edit α)) (here : Edit α) (beyond : List (Edit α)) : Cursor α :=
  match beyond, here with
  | .keep k :: rest, .add a =>
      let cut := splitShared k a
      if h : cut.1 ≠ [] then
        have : cut.2.1.length < k.length := by
          have := congrArg List.length (splitShared_old k a)
          have := List.length_pos_iff.2 h
          simp [cut] at *; omega
        have := room_withKeep_lt rest this
        lower (keepBehind cut.1 before) (.add (cut.2.2 ++ cut.1)) (withKeep cut.2.1 rest)
      else if k = [] then lower before (.add a) rest
      else ⟨before, here, beyond⟩
  | .keep k :: rest, .drop d =>
      if k = [] then lower before (.drop d) rest else ⟨before, here, beyond⟩
  | .drop d :: rest, .add a => lower (.drop d :: before) (.add a) rest
  | .add a :: rest, .drop d => lower (.add a :: before) (.drop d) rest
  | .add b :: rest, .add a => lower before (.add (a ++ b)) rest
  | .drop b :: rest, .drop d => lower before (.drop (d ++ b)) rest
  | _, _ => ⟨before, here, beyond⟩
termination_by room beyond
decreasing_by all_goals first | assumption | simp [room]

/-! ### The pass over a script ends -/

/-- How many edits of a kind are in a list. -/
def countKind (k : EditKind) (edits : List (Edit α)) : Nat := edits.countP fun e => e.kind = k

omit [DecidableEq α] in
@[simp]
theorem countKind_cons (k : EditKind) (e : Edit α) (edits : List (Edit α)) :
    countKind k (e :: edits) = countKind k edits + if e.kind = k then 1 else 0 := by
  simp [countKind, List.countP_cons]

omit [DecidableEq α] in
theorem countKind_keepOnto {k : EditKind} (hk : k ≠ .keep) (run : List α)
    (edits : List (Edit α)) : countKind k (keepOnto run edits) = countKind k edits := by
  fun_cases keepOnto run edits <;> simp [Edit.kind, hk.symm]

omit [DecidableEq α] in
theorem countKind_withKeep {k : EditKind} (hk : k ≠ .keep) (run : List α)
    (edits : List (Edit α)) : countKind k (withKeep run edits) = countKind k edits := by
  fun_cases withKeep run edits <;> simp [Edit.kind, hk.symm]

theorem kind_raise (before : List (Edit α)) (here : Edit α) (beyond : List (Edit α)) :
    (raise before here beyond).here.kind = here.kind := by
  fun_induction raise before here beyond <;> simp_all [Edit.kind]

theorem countKind_raise_le (before : List (Edit α)) (here : Edit α) (beyond : List (Edit α)) :
    countKind here.kind (raise before here beyond).beyond ≤ countKind here.kind beyond := by
  fun_induction raise before here beyond <;> simp_all [Edit.kind, countKind_keepOnto]

theorem countKind_lower_le (before : List (Edit α)) (here : Edit α) (beyond : List (Edit α)) :
    countKind here.kind (lower before here beyond).beyond ≤ countKind here.kind beyond := by
  fun_induction lower before here beyond <;>
    simp_all [Edit.kind, countKind_withKeep] <;> omega

/-- Settle one edit: up as far as it goes, then down as far as it goes. -/
def settleOne (before : List (Edit α)) (here : Edit α) (beyond : List (Edit α)) : Cursor α :=
  let raised := raise before here beyond
  lower raised.before raised.here raised.beyond

theorem countKind_settleOne_le (before : List (Edit α)) (here : Edit α)
    (beyond : List (Edit α)) :
    countKind here.kind (settleOne before here beyond).beyond ≤ countKind here.kind beyond := by
  refine Nat.le_trans ?_ (countKind_raise_le before here beyond)
  rw [← kind_raise before here beyond]
  exact countKind_lower_le ..

/-- Settle every edit of one kind, from the first to the last. -/
def settleKind (k : EditKind) (before beyond : List (Edit α)) : List (Edit α) :=
  match beyond with
  | [] => before.reverse
  | here :: rest =>
      if h : here.kind = k then
        have : countKind k (settleOne before here rest).beyond < countKind k (here :: rest) := by
          rw [countKind_cons, if_pos h]
          subst h
          exact Nat.lt_succ_of_le (countKind_settleOne_le before here rest)
        let c := settleOne before here rest
        settleKind k (c.here :: c.before) c.beyond
      else settleKind k (here :: before) rest
termination_by (countKind k beyond, beyond.length)
decreasing_by
  · exact Prod.Lex.left _ _ this
  · rw [countKind_cons, if_neg h]
    exact Prod.Lex.right _ (Nat.lt_succ_self _)

/-- Settle a script: its drops first, then its adds. -/
def settle (script : List (Edit α)) : List (Edit α) :=
  settleKind .add [] (settleKind .drop [] script)

end CleanDiff
