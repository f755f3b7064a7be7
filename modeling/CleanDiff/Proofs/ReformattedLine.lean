import CleanDiff.Proofs.OneLine

/-!
# One line reformatted

A line of the working text that differs from its reference line by noise only is undone,
**unless the line behind it equals the new one** (`denoise_reformatted_line`).

The search finds the change for what it is, whatever lines repeat: one item dropped and one
added at the same place, and all else kept (`onlySwap_anchoredScript`). What can go wrong is
settling. A drop stays where it is, but an add slides down along items that equal its own. If
the added item is repeated behind the change, the two part (`exists_settle_swap`): the drop and
the add are regions of their own then, with an equal region between them, and neither is judged
together with the other. A line that is noise as a whole still comes back, in two pieces; any
other stays reformatted, which `not_denoise_reformatted_line` shows at two lines.
-/

namespace CleanDiff

section Script

variable {α : Type}

/-- All edits but two are kept runs: one item is dropped, and another is added at the same
place. -/
def OnlySwap (a b : α) (script : List (Edit α)) : Prop :=
  ∃ before swap after, script = before ++ (swap ++ after) ∧ AllKept before ∧ AllKept after ∧
    (swap = [.drop [a], .add [b]] ∨ swap = [.add [b], .drop [a]])

theorem OnlySwap.around {a b : α} {script kept kept' : List (Edit α)} (h : OnlySwap a b script)
    (hkept : AllKept kept) (hkept' : AllKept kept') : OnlySwap a b (kept ++ (script ++ kept')) := by
  obtain ⟨before, swap, after, rfl, hbefore, hafter, hswap⟩ := h
  exact ⟨kept ++ before, swap, after ++ kept', by simp, allKept_append hkept hbefore,
    allKept_append hafter hkept', hswap⟩

/-- Two items can be cut in two ways only, with one of them on each side. -/
theorem isCut_singletons {a b : α} {x y : Nat} (h : IsCut [a] [b] x y) :
    (x = 1 ∧ y = 0) ∨ (x = 0 ∧ y = 1) := by
  obtain ⟨hx, hy, hlow, hhigh⟩ := h
  simp only [List.length_singleton] at hx hy hhigh
  omega

/-- Where two sequences differ in one item, and two others differ in the same items at one
place, it is the same place. -/
theorem append_cons_inj_of_ne {a b : α} (hne : a ≠ b) {p q p' q' : List α}
    (ha : p ++ a :: q = p' ++ a :: q') (hb : p ++ b :: q = p' ++ b :: q') : p = p' ∧ q = q' := by
  induction p generalizing p' with
  | nil =>
      cases p' with
      | nil => exact ⟨rfl, by simpa using ha⟩
      | cons c p' =>
          simp only [List.nil_append, List.cons_append, List.cons.injEq] at ha hb
          exact absurd (ha.1.trans hb.1.symm) hne
  | cons c p ih =>
      cases p' with
      | nil =>
          simp only [List.nil_append, List.cons_append, List.cons.injEq] at ha hb
          exact absurd (ha.1.symm.trans hb.1) hne
      | cons c' p' =>
          simp only [List.cons_append, List.cons.injEq] at ha hb
          obtain ⟨hp, hq⟩ := ih ha.2 hb.2
          exact ⟨by rw [ha.1, hp], hq⟩

variable [DecidableEq α]

/-! ### The search -/

theorem splitShared_of_ne {a b : α} (hne : a ≠ b) (front o n : List α) :
    splitShared (front ++ a :: o) (front ++ b :: n) = (front, a :: o, b :: n) := by
  induction front with
  | nil => simp [splitShared, hne]
  | cons c front ih => simp [splitShared, ih]

/-- Two sequences that differ in one item are cut down to it at both ends. -/
theorem trimShared_of_ne {a b : α} (hne : a ≠ b) (before after : List α) :
    trimShared (before ++ a :: after) (before ++ b :: after) = ⟨before, [a], [b], after⟩ := by
  have hend : splitSharedEnd (a :: after) (b :: after) = (after, [a], [b]) := by
    simp [splitSharedEnd, splitShared_of_ne hne after.reverse [] []]
  simp only [trimShared, splitShared_of_ne hne, hend]

theorem divide_nil_right (l : List α) : divide l [] = Edit.dropRun l := by
  have hsplit : ∀ l : List α, splitShared l [] = ([], l, []) := by
    intro l
    cases l <;> rfl
  have htrim : trimShared l [] = ⟨[], l, [], []⟩ := by
    simp [trimShared, splitSharedEnd, hsplit]
  rw [divide]
  simp [htrim, Trimmed.around, Edit.keepRun, Edit.addRun]

theorem divide_nil_left (l : List α) : divide [] l = Edit.addRun l := by
  have hsplit : ∀ l : List α, splitShared [] l = ([], [], l) := by
    intro l
    cases l <;> rfl
  have htrim : trimShared [] l = ⟨[], [], l, []⟩ := by
    simp [trimShared, splitSharedEnd, hsplit]
  rw [divide]
  simp [htrim, Trimmed.around, Edit.keepRun, Edit.dropRun]

/-- However the two items that differ are cut, one is dropped and the other added. -/
theorem onlySwap_divide {a b : α} (hne : a ≠ b) (before after : List α) :
    OnlySwap a b (divide (before ++ a :: after) (before ++ b :: after)) := by
  have htrim := trimShared_of_ne hne before after
  have hround : ∀ swap : List (Edit α),
      swap = [.drop [a], .add [b]] ∨ swap = [.add [b], .drop [a]] →
      OnlySwap a b ((trimShared (before ++ a :: after) (before ++ b :: after)).around swap) := by
    intro swap hswap
    rw [htrim]
    exact ⟨Edit.keepRun before, swap, Edit.keepRun after, rfl, allKept_keepRun before,
      allKept_keepRun after, hswap⟩
  fun_cases divide (before ++ a :: after) (before ++ b :: after) with
  | case1 t hside => simp [t, htrim] at hside
  | case2 t hside hcut =>
      apply hround
      simp [t, htrim]
  | case3 t hside p hcut =>
      apply hround
      have hp := isCut_of_cutPoint hcut
      simp only [t, htrim] at hp ⊢
      rcases isCut_singletons hp with ⟨hx, hy⟩ | ⟨hx, hy⟩
      · simp [hx, hy, divide_nil_left, divide_nil_right, Edit.dropRun, Edit.addRun]
      · simp [hx, hy, divide_nil_left, divide_nil_right, Edit.dropRun, Edit.addRun]

/-- Neither item is an anchor: each is there once more on its own side than on the other. -/
theorem ne_of_mem_anchors {a b : α} (hne : a ≠ b) {before after : List α} {c : α}
    (hc : c ∈ anchors (before ++ a :: after) (before ++ b :: after)) : c ≠ a ∧ c ≠ b := by
  obtain ⟨hold, hnew⟩ := count_of_mem_anchors hc
  rw [List.count_append] at hold hnew
  constructor
  · rintro rfl
    simp [Ne.symm hne] at hold hnew
    omega
  · rintro rfl
    simp [hne] at hold hnew
    omega

/-- The search finds the change for what it is. -/
theorem onlySwap_anchoredScript {a b : α} (hne : a ≠ b) (before after : List α) :
    OnlySwap a b (anchoredScript (before ++ a :: after) (before ++ b :: after)) := by
  have hdropped : ∀ c ∈ anchors (before ++ a :: after) (before ++ b :: after), c ∉ [a] := by
    intro c hc
    simp [(ne_of_mem_anchors hne hc).1]
  have hadded : ∀ c ∈ anchors (before ++ a :: after) (before ++ b :: after), c ∉ [b] := by
    intro c hc
    simp [(ne_of_mem_anchors hne hc).2]
  obtain ⟨kept, front, back, kept', halign, hkept, hkept'⟩ :=
    exists_alignAt_eq hdropped hadded before after
  simp only [List.singleton_append] at halign
  rw [anchoredScript, halign]
  exact (onlySwap_divide hne front back).around hkept hkept'

/-! ### Settling the drop

It passes the add, first on its way up and then on its way down, and stops at kept runs. -/

theorem raise_drop_of_kept {before : List (Edit α)} (h : AllKept before) (d : List α)
    (beyond : List (Edit α)) :
    ∃ before', raise before (.drop d) beyond = ⟨before', .drop d, beyond⟩ ∧ AllKept before' := by
  induction before with
  | nil => exact ⟨[], by rw [raise] <;> simp, h⟩
  | cons e before ih =>
      obtain ⟨he, hbefore⟩ := List.forall_mem_cons.1 h
      cases e with
      | keep k =>
          rw [raise]
          split
          · exact ih hbefore
          · exact ⟨.keep k :: before, rfl, h⟩
      | drop run => exact absurd he (by simp [Edit.kind])
      | add run => exact absurd he (by simp [Edit.kind])

theorem lower_drop_of_kept {beyond : List (Edit α)} (h : AllKept beyond) (before : List (Edit α))
    (d : List α) :
    ∃ beyond', lower before (.drop d) beyond = ⟨before, .drop d, beyond'⟩ ∧ AllKept beyond' := by
  induction beyond with
  | nil => exact ⟨[], by rw [lower] <;> simp, h⟩
  | cons e beyond ih =>
      obtain ⟨he, hbeyond⟩ := List.forall_mem_cons.1 h
      cases e with
      | keep k =>
          rw [lower]
          split
          · exact ih hbeyond
          · exact ⟨.keep k :: beyond, rfl, h⟩
      | drop run => exact absurd he (by simp [Edit.kind])
      | add run => exact absurd he (by simp [Edit.kind])

theorem settleOne_drop (a b : α) {before after : List (Edit α)} (hbefore : AllKept before)
    (hafter : AllKept after) :
    ∃ before' after', settleOne before (.drop [a]) (.add [b] :: after) =
        ⟨.add [b] :: before', .drop [a], after'⟩ ∧ AllKept before' ∧ AllKept after' := by
  obtain ⟨before', hraise, hbefore'⟩ := raise_drop_of_kept hbefore [a] (.add [b] :: after)
  obtain ⟨after', hlower, hafter'⟩ := lower_drop_of_kept hafter (.add [b] :: before') [a]
  refine ⟨before', after', ?_, hbefore', hafter'⟩
  rw [settleOne, hraise, lower, hlower]

/-- The pass over a script ends with an edit behind which there are kept runs only. -/
theorem settleKind_of_settled {k : EditKind} {here : Edit α} (hkind : here.kind = k)
    (hk : k ≠ .keep) {before rest : List (Edit α)} {c : Cursor α}
    (hsettled : settleOne before here rest = c) (h : AllKept c.beyond) :
    settleKind k before (here :: rest) = c.script := by
  subst hsettled
  rw [settleKind, dif_pos hkind, settleKind_of_kept hk h]
  simp [Cursor.script]

theorem settleKind_drop_of_onlySwap {a b : α} {script : List (Edit α)} (h : OnlySwap a b script) :
    ∃ before after, settleKind .drop [] script = before ++ .add [b] :: .drop [a] :: after ∧
      AllKept before ∧ AllKept after := by
  obtain ⟨before, swap, after, rfl, hbefore, hafter, hswap⟩ := h
  have hpass : ∀ e ∈ before, e.kind ≠ .drop := fun e he => by simp [hbefore e he]
  obtain ⟨before', after', hsettled, hbefore', hafter'⟩ :=
    settleOne_drop a b (allKept_reverse hbefore) hafter
  refine ⟨before'.reverse, after', ?_, allKept_reverse hbefore', hafter'⟩
  rw [settleKind_append hpass, List.append_nil]
  rcases hswap with rfl | rfl
  · have hscript := settleKind_of_settled (k := .drop) rfl (by simp) hsettled hafter'
    simpa [Cursor.script] using hscript
  · -- With the add in front of it, the drop passes the add and is where it was in the first case.
    have hpassed : settleOne (.add [b] :: before.reverse) (.drop [a]) after =
        ⟨.add [b] :: before', .drop [a], after'⟩ := by
      rw [settleOne, raise]
      exact hsettled
    have hscript := settleKind_of_settled (k := .drop) rfl (by simp) hpassed hafter'
    simp only [List.cons_append, List.nil_append]
    rw [settleKind, dif_neg (by simp [Edit.kind])]
    simpa [Cursor.script] using hscript

/-! ### Settling the add

It slides up over the run of its item before the change, back down to the drop, passes it and
slides on over the run of its item behind the change. The run slid over is one kept run. -/

omit [DecidableEq α] in
theorem keepOnto_withKeep (b : α) (n : Nat) {e : Edit α} (he : e.kind ≠ .keep)
    (rest : List (Edit α)) :
    keepOnto [b] (withKeep (List.replicate n b) (e :: rest)) =
      withKeep (List.replicate (n + 1) b) (e :: rest) := by
  cases n with
  | zero => cases e <;> simp_all [withKeep, keepOnto, Edit.kind]
  | succ n => simp [withKeep, keepOnto, List.replicate_succ]

omit [DecidableEq α] in
theorem keepBehind_withKeep (b : α) (n : Nat) {e : Edit α} (he : e.kind ≠ .keep)
    (rest : List (Edit α)) :
    keepBehind [b] (withKeep (List.replicate n b) (e :: rest)) =
      withKeep (List.replicate (n + 1) b) (e :: rest) := by
  cases n with
  | zero => cases e <;> simp_all [withKeep, keepBehind, Edit.kind]
  | succ n =>
      have hrun : b :: List.replicate n b ++ [b] = List.replicate (n + 1 + 1) b := by
        rw [← List.replicate_succ, ← List.replicate_succ']
      simp [withKeep, keepBehind, List.replicate_succ, hrun]

theorem raise_add_of_kept {a b : α} {e : Edit α} (he : e = .add [b]) {before beyond : List (Edit α)}
    (h : AllKept before) {n : Nat} {after : List (Edit α)}
    (hbeyond : beyond = withKeep (List.replicate n b) (.drop [a] :: after)) :
    ∃ before' n', raise before e beyond =
        ⟨before', .add [b], withKeep (List.replicate n' b) (.drop [a] :: after)⟩ ∧
      AllKept before' := by
  fun_induction raise before e beyond generalizing n with
  | case1 beyond k rest run cut hcut _ _ ih =>
      obtain rfl : run = [b] := Edit.add.inj he
      have hnew : cut.2.2 ++ cut.1 = [b] := splitSharedEnd_new k [b]
      obtain ⟨hrest, hrun⟩ : cut.2.2 = [] ∧ cut.1 = [b] := by
        rcases List.append_eq_singleton_iff.1 hnew with hcases | hcases
        · exact hcases
        · exact absurd hcases.2 hcut
      apply ih
      · simp [hrest, hrun]
      · exact allKept_withKeep _ (List.forall_mem_cons.1 h).2
      · rw [hbeyond, hrun, keepOnto_withKeep b n (by simp [Edit.kind])]
  | case2 _ _ _ _ _ ih => exact ih he (List.forall_mem_cons.1 h).2 hbeyond
  | case3 | case10 =>
      rw [he, hbeyond]
      exact ⟨_, n, rfl, h⟩
  | case4 | case5 => exact absurd he (by simp)
  | case6 | case7 | case8 | case9 =>
      exact absurd (List.forall_mem_cons.1 h).1 (by simp [Edit.kind])

/-- What it slid over on the way up it slides over again, and then it passes the drop. -/
theorem lower_add_of_run {a b : α} {before : List (Edit α)} (h : AllKept before) (n : Nat)
    (after : List (Edit α)) :
    ∃ before', lower before (.add [b]) (withKeep (List.replicate n b) (.drop [a] :: after)) =
        lower (.drop [a] :: before') (.add [b]) after ∧ AllKept before' := by
  induction n generalizing before with
  | zero => exact ⟨before, by rw [List.replicate_zero, withKeep, lower], h⟩
  | succ n ih =>
      have hcut : splitShared (b :: List.replicate n b) [b] = ([b], List.replicate n b, []) := by
        cases n <;> simp [splitShared, List.replicate_succ]
      obtain ⟨before', hlower, hbefore'⟩ := ih (allKept_keepBehind [b] h)
      refine ⟨before', ?_, hbefore'⟩
      rw [List.replicate_succ, withKeep, lower]
      simp [hcut, hlower]

/-- Behind the drop it slides down until the next item is another one. -/
theorem lower_add_of_kept {a b : α} {e : Edit α} (he : e = .add [b]) {before beyond : List (Edit α)}
    (h : AllKept beyond) {n : Nat} {front : List (Edit α)}
    (hbefore : before = withKeep (List.replicate n b) (.drop [a] :: front)) :
    ∃ n' after, lower before e beyond =
        ⟨withKeep (List.replicate n' b) (.drop [a] :: front), .add [b], after⟩ ∧
      AllKept after ∧ (after.flatMap Edit.reference).head? ≠ some b := by
  fun_induction lower before e beyond generalizing n with
  | case1 before k rest run cut hcut _ _ ih =>
      obtain rfl : run = [b] := Edit.add.inj he
      have hnew : cut.1 ++ cut.2.2 = [b] := splitShared_new k [b]
      obtain ⟨hrun, hrest⟩ : cut.1 = [b] ∧ cut.2.2 = [] := by
        rcases List.append_eq_singleton_iff.1 hnew with hcases | hcases
        · exact absurd hcases.1 hcut
        · exact hcases
      apply ih
      · simp [hrest, hrun]
      · exact allKept_withKeep _ (List.forall_mem_cons.1 h).2
      · rw [hbefore, hrun, keepBehind_withKeep b n (by simp [Edit.kind])]
  | case2 _ _ _ _ _ ih => exact ih he (List.forall_mem_cons.1 h).2 hbefore
  | case3 before k rest run cut hcut hk =>
      obtain rfl : run = [b] := Edit.add.inj he
      subst hbefore
      refine ⟨n, _, rfl, h, ?_⟩
      obtain ⟨c, k, rfl⟩ := List.exists_cons_of_ne_nil hk
      intro hc
      obtain rfl : c = b := by simpa [Edit.reference] using hc
      exact hcut (by simp [cut, splitShared])
  | case4 | case5 => exact absurd he (by simp)
  | case6 | case7 | case8 | case9 =>
      exact absurd (List.forall_mem_cons.1 h).1 (by simp [Edit.kind])
  | case10 before e beyond hkeep =>
      subst he hbefore
      cases beyond with
      | nil => exact ⟨n, [], rfl, h, by simp⟩
      | cons next rest =>
          cases next with
          | keep k => exact absurd rfl (hkeep k rest [b] rfl)
          | drop _ | add _ => exact absurd (List.forall_mem_cons.1 h).1 (by simp [Edit.kind])

omit [DecidableEq α] in
theorem reverse_withKeep_append (run : List α) (e : Edit α) (edits tail : List (Edit α)) :
    (withKeep run (e :: edits)).reverse ++ tail = edits.reverse ++ e :: withKeep run tail := by
  cases run <;> simp [withKeep]

theorem settleKind_add_of_swap (a b : α) {before after : List (Edit α)} (hbefore : AllKept before)
    (hafter : AllKept after) :
    ∃ front n back, settleKind .add [] (before ++ .add [b] :: .drop [a] :: after) =
        front ++ .drop [a] :: withKeep (List.replicate n b) (.add [b] :: back) ∧
      AllKept front ∧ AllKept back ∧ (back.flatMap Edit.reference).head? ≠ some b := by
  have hpass : ∀ e ∈ before, e.kind ≠ .add := fun e he => by simp [hbefore e he]
  have hempty : ∀ edits : List (Edit α),
      .drop [a] :: edits = withKeep (List.replicate 0 b) (.drop [a] :: edits) := fun _ => rfl
  obtain ⟨lead, m, hraise, hlead⟩ :=
    raise_add_of_kept rfl (allKept_reverse hbefore) (hempty after)
  obtain ⟨front, hrun, hfront⟩ := lower_add_of_run (a := a) (b := b) hlead m after
  obtain ⟨n, back, hlower, hback, hhead⟩ := lower_add_of_kept rfl hafter (hempty front)
  have hsettled : settleOne before.reverse (.add [b]) (.drop [a] :: after) =
      ⟨withKeep (List.replicate n b) (.drop [a] :: front), .add [b], back⟩ := by
    rw [settleOne]
    exact (congrArg (fun c : Cursor α => lower c.before c.here c.beyond) hraise).trans
      (hrun.trans hlower)
  have hscript := settleKind_of_settled (k := .add) rfl (by simp) hsettled hback
  refine ⟨front.reverse, n, back, ?_, allKept_reverse hfront, hback, hhead⟩
  rw [settleKind_append hpass, List.append_nil, hscript]
  exact reverse_withKeep_append _ _ _ _

/-! ### The settled script -/

omit [DecidableEq α] in
theorem working_of_allKept {script : List (Edit α)} (h : AllKept script) :
    script.flatMap Edit.working = script.flatMap Edit.reference := by
  apply List.flatMap_congr
  intro e he
  cases e with
  | keep run => rfl
  | drop run => exact absurd (h _ he) (by simp [Edit.kind])
  | add run => exact absurd (h _ he) (by simp [Edit.kind])

/-- Settled, the drop stands where the items differ, and the add behind the run of its item that
follows there. -/
theorem exists_settle_swap {a b : α} (hne : a ≠ b) (before after : List α) :
    ∃ front n back, settle (anchoredScript (before ++ a :: after) (before ++ b :: after)) =
        front ++ .drop [a] :: withKeep (List.replicate n b) (.add [b] :: back) ∧
      AllKept front ∧ AllKept back ∧ (n = 0 ↔ after.head? ≠ some b) := by
  have hscript := onlySwap_anchoredScript hne before after
  have hcovers :=
    covers_settle (covers_anchoredScript (before ++ a :: after) (before ++ b :: after))
  obtain ⟨lead, tail, hdrop, hlead, htail⟩ := settleKind_drop_of_onlySwap hscript
  obtain ⟨front, n, back, hadd, hfront, hback, hhead⟩ := settleKind_add_of_swap a b hlead htail
  have hsettle : settle (anchoredScript (before ++ a :: after) (before ++ b :: after)) =
      front ++ .drop [a] :: withKeep (List.replicate n b) (.add [b] :: back) := by
    rw [settle, hdrop, hadd]
  refine ⟨front, n, back, hsettle, hfront, hback, ?_⟩
  rw [hsettle] at hcovers
  obtain ⟨hreference, hworking⟩ := hcovers
  simp only [List.flatMap_append, List.flatMap_cons, flatMap_withKeep reference_keep,
    flatMap_withKeep working_keep, working_of_allKept hfront, working_of_allKept hback,
    Edit.reference, Edit.working, List.nil_append, List.singleton_append] at hreference hworking
  -- The add has slid over copies of its own item, so it may as well stand in front of them.
  have hslid : List.replicate n b ++ b :: back.flatMap Edit.reference =
      b :: (List.replicate n b ++ back.flatMap Edit.reference) := by
    rw [← List.singleton_append, ← List.append_assoc, ← List.replicate_succ', List.replicate_succ,
      List.cons_append]
  rw [hslid] at hworking
  obtain ⟨-, hafter⟩ := append_cons_inj_of_ne hne hreference hworking
  rw [← hafter]
  cases n with
  | zero => simpa using hhead
  | succ n => simp [List.replicate_succ]

end Script

/-! ### Regions -/

theorem Region.ofScript_add_of_kept (l : Text) {back : List (Edit Text)} (h : AllKept back) :
    ofScript (.add [l] :: back) = ⟨.insert, [], [l]⟩ :: ofScript back := by
  rw [ofScript, if_neg (by simp [Edit.run])]
  exact onto_of_equal (by simp [ofEdit]) (ofScript_of_kept h)

/-- Where another line follows, the two lines are one region. -/
theorem onlyChangedRegion_align_swap {a b : Text} (hne : a ≠ b) (before : List Text)
    {after : List Text} (hnext : after.head? ≠ some b) :
    OnlyChangedRegion ⟨.replace, [a], [b]⟩
      (align (before ++ a :: after) (before ++ b :: after)) := by
  obtain ⟨front, n, back, hsettle, hfront, hback, hn⟩ := exists_settle_swap hne before after
  obtain rfl := hn.2 hnext
  have hequal := Region.ofScript_of_kept hback
  have hswap : Region.ofScript (.drop [a] :: .add [b] :: back) =
      ⟨.replace, [a], [b]⟩ :: Region.ofScript back := by
    rw [Region.ofScript, if_neg (by simp [Edit.run]), Region.ofScript_add_of_kept b hback]
    simp [Region.ofEdit, Region.onto, Region.isEqual, Region.join, RegionKind.ofSides]
  obtain ⟨regions, hregions, hbeforeEqual⟩ :=
    Region.exists_ofScript_append hfront (by simp) hswap
  refine ⟨regions, Region.ofScript back, ?_, hbeforeEqual, hequal⟩
  rw [align, hsettle]
  exact hregions

/-- Where the new line follows itself, the line dropped and the line added are regions of their
own, and what lies around and between them is equal. -/
theorem exists_align_swap_parted {a b : Text} (hne : a ≠ b) (before : List Text)
    {after : List Text} (hnext : after.head? = some b) :
    ∃ front shared back, align (before ++ a :: after) (before ++ b :: after) =
        front ++ ⟨.delete, [a], []⟩ :: shared :: ⟨.insert, [], [b]⟩ :: back ∧
      (∀ r ∈ front, r.kind = .equal) ∧ shared.kind = .equal ∧ ∀ r ∈ back, r.kind = .equal := by
  obtain ⟨front, n, back, hsettle, hfront, hback, hn⟩ := exists_settle_swap hne before after
  obtain ⟨n, rfl⟩ := Nat.exists_eq_succ_of_ne_zero fun h => (hn.1 h) hnext
  have hequal := Region.ofScript_of_kept hback
  have hparted : Region.ofScript
      (.drop [a] :: .keep (b :: List.replicate n b) :: .add [b] :: back) =
        ⟨.delete, [a], []⟩ :: ⟨.equal, b :: List.replicate n b, b :: List.replicate n b⟩ ::
          ⟨.insert, [], [b]⟩ :: Region.ofScript back := by
    rw [Region.ofScript, if_neg (by simp [Edit.run]), Region.ofScript,
      if_neg (by simp [Edit.run]), Region.ofScript_add_of_kept b hback]
    simp [Region.ofEdit, Region.onto, Region.isEqual]
  obtain ⟨regions, hregions, hbeforeEqual⟩ :=
    Region.exists_ofScript_append hfront (by simp) hparted
  refine ⟨regions, ⟨.equal, b :: List.replicate n b, b :: List.replicate n b⟩, Region.ofScript back,
    ?_, hbeforeEqual, rfl, hequal⟩
  rw [align, hsettle]
  exact hregions

/-! ### The text -/

/-- A line that is nothing but noise comes back also when it has parted from the line it
replaces, as two pieces; any other line stays as it is in the working text. -/
theorem denoise_of_parted {profile : Option Grammar} {reference working a b : Text}
    {before after : List Text} (hreference : reference.lines = before ++ a :: after)
    (hworking : working.lines = before ++ b :: after) (hne : a ≠ b)
    (hsame : signature profile a = signature profile b) (hnext : after.head? = some b) :
    denoise profile reference working =
      if signature profile b = [] then ⟨reference, 2⟩ else ⟨working, 0⟩ := by
  obtain ⟨front, shared, back, halign, hfront, hshared, hback⟩ :=
    exists_align_swap_parted hne before hnext
  rw [← hreference, ← hworking] at halign
  have hfits : ∀ r ∈ front ++ ⟨.delete, [a], []⟩ :: shared :: ⟨.insert, [], [b]⟩ :: back,
      r.Fits := by
    rw [← halign]
    exact fun r hr => fits_of_mem_align hr
  simp only [List.forall_mem_append, List.forall_mem_cons] at hfits
  obtain ⟨hfitsFront, -, hfitsShared, -, hfitsBack⟩ := hfits
  have ha : a ≠ [] := (Text.isLine_of_mem_lines (by rw [hreference]; simp)).ne_nil
  have hb : b ≠ [] := (Text.isLine_of_mem_lines (by rw [hworking]; simp)).ne_nil
  by_cases hnoise : signature profile b = []
  · rw [if_pos hnoise]
    have hall : ∀ r ∈ align reference.lines working.lines, r.kind ≠ .equal →
        signature profile r.reference.flatten = signature profile r.working.flatten := by
      rw [halign]
      simp only [List.forall_mem_append, List.forall_mem_cons]
      refine ⟨fun r hr h => absurd (hfront r hr) h, ?_, fun h => absurd hshared h, ?_,
        fun r hr h => absurd (hback r hr) h⟩
      · simp [signature_nil, hsame, hnoise]
      · simp [signature_nil, hnoise]
    rw [denoise_of_all_noise hall, halign]
    simp only [List.countP_append, List.countP_cons, countP_differs_of_equal hfitsFront hfront,
      countP_differs_of_equal hfitsBack hback]
    simp [hfitsShared.sides_eq hshared, ha, hb.symm]
  · rw [if_neg hnoise, denoise_eq_self_iff, halign]
    have hequal : ∀ {r : Region}, r.Fits → r.kind = .equal → ¬ r.HoldsNoise profile := by
      intro r hr hkind
      simp [Region.HoldsNoise, hkind, hr.sides_eq hkind]
    simp only [List.forall_mem_append, List.forall_mem_cons]
    refine ⟨fun r hr => hequal (hfitsFront r hr) (hfront r hr), ?_, hequal hfitsShared hshared, ?_,
      fun r hr => hequal (hfitsBack r hr) (hback r hr)⟩
    · simp [Region.HoldsNoise, signature_nil, hsame, hnoise]
    · simp [Region.HoldsNoise, signature_nil, Ne.symm hnoise]

/-- **One reformatted line is undone, in one piece and with nothing else changed, exactly if the
line behind it is not the same as the new one**; it may equal any other line of the text. Where
it is the same, a line of nothing but noise is undone in two pieces, and any other line stays
reformatted. -/
theorem denoise_reformatted_line {profile : Option Grammar} {reference working a b : Text}
    {before after : List Text} (hreference : reference.lines = before ++ a :: after)
    (hworking : working.lines = before ++ b :: after) (hne : a ≠ b)
    (hsame : signature profile a = signature profile b) :
    (denoise profile reference working = ⟨reference, 1⟩ ↔ after.head? ≠ some b) ∧
    (after.head? = some b →
      denoise profile reference working =
        if signature profile b = [] then ⟨reference, 2⟩ else ⟨working, 0⟩) := by
  have hparted := denoise_of_parted hreference hworking hne hsame
  refine ⟨⟨?_, ?_⟩, hparted⟩
  · intro h hnext
    rw [hparted hnext] at h
    split at h <;> simp at h
  · intro hnext
    have honly := onlyChangedRegion_align_swap hne before hnext
    rw [← hreference, ← hworking] at honly
    exact denoise_of_only_noise honly (by simpa using hsame) (by simpa using hne)

/-- A comment is taken off a line, and the new line equals the one before it and the last one. -/
theorem denoise_reformatted_line_of_repeated_line :
    Text.lines "x = 1\nx=1 # a\ny\nx = 1\n".toList =
      ["x = 1\n".toList] ++ "x=1 # a\n".toList :: ["y\n".toList, "x = 1\n".toList] ∧
    Text.lines "x = 1\nx = 1\ny\nx = 1\n".toList =
      ["x = 1\n".toList] ++ "x = 1\n".toList :: ["y\n".toList, "x = 1\n".toList] ∧
    signature (some .hash) "x=1 # a\n".toList = signature (some .hash) "x = 1\n".toList ∧
    denoise (some .hash) "x = 1\nx=1 # a\ny\nx = 1\n".toList
        "x = 1\nx = 1\ny\nx = 1\n".toList =
      ⟨"x = 1\nx=1 # a\ny\nx = 1\n".toList, 1⟩ := by
  have hreference : Text.lines "x = 1\nx=1 # a\ny\nx = 1\n".toList =
      ["x = 1\n".toList] ++ "x=1 # a\n".toList :: ["y\n".toList, "x = 1\n".toList] := by
    decide +kernel
  have hworking : Text.lines "x = 1\nx = 1\ny\nx = 1\n".toList =
      ["x = 1\n".toList] ++ "x = 1\n".toList :: ["y\n".toList, "x = 1\n".toList] := by
    decide +kernel
  have hsame : signature (some .hash) "x=1 # a\n".toList =
      signature (some .hash) "x = 1\n".toList := by
    decide +kernel
  have hall := denoise_reformatted_line hreference hworking (by decide) hsame
  exact ⟨hreference, hworking, hsame, hall.1.2 (by decide)⟩

/-- The first of two lines loses its indentation and equals the second then: the line added slides
behind that one, and the indentation does not come back. -/
theorem not_denoise_reformatted_line :
    ¬ ∀ (profile : Option Grammar) (reference working a b : Text) (before after : List Text),
      reference.lines = before ++ a :: after → working.lines = before ++ b :: after → a ≠ b →
      signature profile a = signature profile b →
        denoise profile reference working = ⟨reference, 1⟩ := by
  intro h
  have hscript : anchoredScript (Text.lines " a\na\n".toList) (Text.lines "a\na\n".toList) =
      [.add ["a\n".toList], .drop [" a\n".toList], .keep ["a\n".toList]] := by
    decide +kernel
  have hresult : denoise none " a\na\n".toList "a\na\n".toList = ⟨"a\na\n".toList, 0⟩ := by
    rw [denoise, align, hscript, show settle _ = _ by cbv]
    decide +kernel
  have hundone := h none " a\na\n".toList "a\na\n".toList " a\n".toList "a\n".toList []
    ["a\n".toList] (by decide) (by decide) (by decide) (by decide)
  rw [hresult] at hundone
  exact absurd hundone (by decide)

end CleanDiff
