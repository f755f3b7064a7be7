import CleanDiff.Proofs.FixedPoint
import CleanDiff.Proofs.Lines

/-!
# One line added or removed

A line that is noise can be put into a text or taken out of it at any place, also beside lines
that equal it: **it is the only change that the alignment finds, and it is undone**
(`denoise_one_line`).

Which of several equal lines counts as the extra one is left open. What is kept from the first
search to the settled script is `OnlyChange`: all edits but one are kept runs, and that one is
about a single item.

* `onlyChange_divide`: two sequences that differ by one item are cut down to it at both ends,
  so nothing is left to search for.
* `onlyChange_alignAt`: anchors cut both sequences at corresponding places, because the extra
  item is no anchor (`not_mem_anchors`): it is there once more on one side than on the other.
* `onlyChange_settle`: an edit about one item slides along kept runs and stays what it is.
-/

namespace CleanDiff

section Script

variable {α : Type}

/-- The edit adds or drops one item. -/
inductive Edit.Single (a : α) : Edit α → Prop
  | add : Single a (.add [a])
  | drop : Single a (.drop [a])

/-- Every edit is a kept run. -/
def AllKept (script : List (Edit α)) : Prop := ∀ e ∈ script, e.kind = .keep

/-- All edits but this one are kept runs. -/
def OnlyChange (e : Edit α) (script : List (Edit α)) : Prop :=
  ∃ before after, script = before ++ e :: after ∧ AllKept before ∧ AllKept after

theorem allKept_append {s t : List (Edit α)} (hs : AllKept s) (ht : AllKept t) :
    AllKept (s ++ t) := by
  intro e he
  rcases List.mem_append.1 he with he | he
  · exact hs e he
  · exact ht e he

theorem allKept_reverse {s : List (Edit α)} (h : AllKept s) : AllKept s.reverse :=
  fun e he => h e (List.mem_reverse.1 he)

theorem allKept_keepRun (run : List α) : AllKept (Edit.keepRun run) := by
  cases run <;> simp [AllKept, Edit.keepRun, Edit.kind]

theorem OnlyChange.append {e : Edit α} {script kept : List (Edit α)} (h : OnlyChange e script)
    (hkept : AllKept kept) : OnlyChange e (script ++ kept) := by
  obtain ⟨before, after, rfl, hbefore, hafter⟩ := h
  exact ⟨before, after ++ kept, by simp, hbefore, allKept_append hafter hkept⟩

theorem OnlyChange.prepend {e : Edit α} {script kept : List (Edit α)} (h : OnlyChange e script)
    (hkept : AllKept kept) : OnlyChange e (kept ++ script) := by
  obtain ⟨before, after, rfl, hbefore, hafter⟩ := h
  exact ⟨kept ++ before, after, by simp, allKept_append hkept hbefore, hafter⟩

variable [DecidableEq α]

/-! ### The search -/

/-- The longest common beginning of two sequences does not hang on their order. -/
theorem splitShared_comm (o n : List α) :
    splitShared n o = ((splitShared o n).1, (splitShared o n).2.2, (splitShared o n).2.1) := by
  fun_induction splitShared o n with
  | case1 a o n ih => simp [splitShared, ih]
  | case2 a o b n hne => simp [splitShared, Ne.symm hne]
  | case3 o n hcons =>
      cases o with
      | nil => cases n <;> rfl
      | cons a o =>
          cases n with
          | nil => rfl
          | cons b n => exact (hcons a o b n rfl rfl).elim

/-- The extra item is left over, with the same items behind it on both sides. -/
theorem splitShared_insert (before after : List α) (a : α) :
    ∃ front back, splitShared (before ++ after) (before ++ a :: after) =
      (front, back, a :: back) := by
  induction before with
  | nil =>
      induction after with
      | nil => exact ⟨[], [], rfl⟩
      | cons b after ih =>
          by_cases hb : b = a
          · -- The extra item can be taken for the next one, and so on along a run of it.
            subst hb
            obtain ⟨front, back, hsplit⟩ := ih
            refine ⟨b :: front, back, ?_⟩
            rw [List.nil_append, List.nil_append] at hsplit ⊢
            simp [splitShared, hsplit]
          · exact ⟨[], b :: after, by simp [splitShared, hb]⟩
  | cons b before ih =>
      obtain ⟨front, back, hsplit⟩ := ih
      exact ⟨b :: front, back, by simp [splitShared, hsplit]⟩

theorem splitSharedEnd_cons (a : α) (l : List α) : splitSharedEnd l (a :: l) = (l, [], [a]) := by
  simp [splitSharedEnd, splitShared_append]

theorem splitSharedEnd_cons_left (a : α) (l : List α) :
    splitSharedEnd (a :: l) l = (l, [a], []) := by
  rw [splitSharedEnd, splitShared_comm]
  simp [splitShared_append]

/-- Two sequences that differ by one item are the same but for that. -/
theorem onlyChange_divide {e : Edit α} {a : α} (he : e.Single a) (before after : List α) :
    OnlyChange e
      (divide (before ++ (e.reference ++ after)) (before ++ (e.working ++ after))) := by
  obtain ⟨front, back, hsplit⟩ := splitShared_insert before after a
  refine ⟨Edit.keepRun front, Edit.keepRun back, ?_, allKept_keepRun front, allKept_keepRun back⟩
  cases he with
  | add =>
      have htrim : trimShared (before ++ after) (before ++ a :: after) =
          ⟨front, [], [a], back⟩ := by
        simp only [trimShared, hsplit, splitSharedEnd_cons]
      simp only [Edit.reference, Edit.working, List.nil_append, List.singleton_append]
      rw [divide]
      simp [htrim, Trimmed.around, Edit.dropRun, Edit.addRun]
  | drop =>
      have htrim : trimShared (before ++ a :: after) (before ++ after) =
          ⟨front, [a], [], back⟩ := by
        simp only [trimShared, splitShared_comm (before ++ after), hsplit, splitSharedEnd_cons_left]
      simp only [Edit.reference, Edit.working, List.nil_append, List.singleton_append]
      rw [divide]
      simp [htrim, Trimmed.around, Edit.dropRun, Edit.addRun]

/-! ### Anchors -/

omit [DecidableEq α] in
theorem mem_sides_of_mem_kept {e : Edit α} {b : α} (h : b ∈ e.kept) :
    b ∈ e.reference ∧ b ∈ e.working := by
  cases e with
  | keep run => exact ⟨h, h⟩
  | drop run => exact absurd h (by simp [Edit.kept])
  | add run => exact absurd h (by simp [Edit.kept])

/-- An anchor is alone on both sides. -/
theorem count_of_mem_anchors {o n : List α} {b : α} (h : b ∈ anchors o n) :
    o.count b = 1 ∧ n.count b = 1 := by
  obtain ⟨e, he, hb⟩ := List.mem_flatMap.1 h
  obtain ⟨hold, hnew⟩ := mem_sides_of_mem_kept hb
  obtain ⟨hreference, hworking⟩ := covers_divide (uniques o) (uniques n)
  have hold : b ∈ uniques o := by
    rw [← hreference]
    exact List.mem_flatMap.2 ⟨e, he, hold⟩
  have hnew : b ∈ uniques n := by
    rw [← hworking]
    exact List.mem_flatMap.2 ⟨e, he, hnew⟩
  exact ⟨by simpa using (List.mem_filter.1 hold).2, by simpa using (List.mem_filter.1 hnew).2⟩

/-- The extra item is no anchor: it is there once more on one side than on the other. -/
theorem not_mem_anchors {e : Edit α} {a : α} (he : e.Single a) (before after : List α) :
    a ∉ anchors (before ++ (e.reference ++ after)) (before ++ (e.working ++ after)) := by
  intro h
  obtain ⟨hold, hnew⟩ := count_of_mem_anchors h
  cases he <;> simp [Edit.reference, Edit.working, List.count_append] at hold hnew <;> omega

/-- Two sequences that are the same around two pieces, cut in front of anchors that are in
neither of these: one part holds the two pieces, and all others are the same on both sides. -/
theorem exists_alignAt_eq {x y anchors : List α} (hx : ∀ b ∈ anchors, b ∉ x)
    (hy : ∀ b ∈ anchors, b ∉ y) (before after : List α) :
    ∃ kept front back kept',
      alignAt anchors (before ++ (x ++ after)) (before ++ (y ++ after)) =
          kept ++ (divide (front ++ (x ++ back)) (front ++ (y ++ back)) ++ kept') ∧
        AllKept kept ∧ AllKept kept' := by
  induction anchors generalizing before after with
  | nil => exact ⟨[], before, after, [], by simp [alignAt], by simp [AllKept], by simp [AllKept]⟩
  | cons b anchors ih =>
      rw [List.forall_mem_cons] at hx hy
      rw [alignAt]
      by_cases hb : b ∈ before
      · -- The anchor lies before the pieces: the first part is the same on both sides.
        obtain ⟨lead, rest, rfl, hlead⟩ := List.eq_append_cons_of_mem hb
        have hcut : ∀ tail : List α,
            (lead ++ b :: rest ++ tail).takeWhile (· ≠ b) = lead ∧
              (lead ++ b :: rest ++ tail).dropWhile (· ≠ b) = b :: rest ++ tail := by
          intro tail
          simpa using takeWhile_ne_append hlead (b :: (rest ++ tail))
        rw [(hcut _).1, (hcut _).1, (hcut _).2, (hcut _).2, divide_self]
        obtain ⟨kept, front, back, kept', hrest, hkept, hkept'⟩ := ih hx.2 hy.2 (b :: rest) after
        refine ⟨Edit.keepRun lead ++ kept, front, back, kept', ?_,
          allKept_append (allKept_keepRun lead) hkept, hkept'⟩
        rw [hrest, List.append_assoc]
      · -- The anchor lies behind them: all behind the first part is the same on both sides.
        have hcut : ∀ side : List α, b ∉ side →
            (before ++ (side ++ after)).takeWhile (· ≠ b) =
                before ++ (side ++ after.takeWhile (· ≠ b)) ∧
              (before ++ (side ++ after)).dropWhile (· ≠ b) = after.dropWhile (· ≠ b) := by
          intro side hside
          have hfront : b ∉ before ++ side := by simp [hb, hside]
          simpa only [List.append_assoc] using takeWhile_ne_append hfront after
        rw [(hcut _ hx.1).1, (hcut _ hy.1).1, (hcut _ hx.1).2, (hcut _ hy.1).2]
        exact ⟨[], before, _, _, rfl, by simp [AllKept], kind_alignAt_self anchors _⟩

/-- Cutting in front of anchors other than the extra item leaves one piece with the extra item
in it, and the others are the same on both sides. -/
theorem onlyChange_alignAt {e : Edit α} {a : α} (he : e.Single a) {anchors : List α}
    (hanchors : a ∉ anchors) (before after : List α) :
    OnlyChange e
      (alignAt anchors (before ++ (e.reference ++ after)) (before ++ (e.working ++ after))) := by
  have hother : ∀ b ∈ anchors, b ≠ a := fun b hb h => hanchors (h ▸ hb)
  have hreference : ∀ b ∈ anchors, b ∉ e.reference := by
    intro b hb
    cases he <;> simp [Edit.reference, hother b hb]
  have hworking : ∀ b ∈ anchors, b ∉ e.working := by
    intro b hb
    cases he <;> simp [Edit.working, hother b hb]
  obtain ⟨kept, front, back, kept', halign, hkept, hkept'⟩ :=
    exists_alignAt_eq hreference hworking before after
  rw [halign]
  exact ((onlyChange_divide he front back).append hkept').prepend hkept

/-! ### Settling -/

omit [DecidableEq α] in
theorem allKept_keepOnto (run : List α) {edits : List (Edit α)} (h : AllKept edits) :
    AllKept (keepOnto run edits) := by
  fun_cases keepOnto run edits <;> simp_all [AllKept, Edit.kind]

omit [DecidableEq α] in
theorem allKept_keepBehind (run : List α) {edits : List (Edit α)} (h : AllKept edits) :
    AllKept (keepBehind run edits) := by
  fun_cases keepBehind run edits <;> simp_all [AllKept, Edit.kind]

omit [DecidableEq α] in
theorem allKept_withKeep (run : List α) {edits : List (Edit α)} (h : AllKept edits) :
    AllKept (withKeep run edits) := by
  fun_cases withKeep run edits <;> simp_all [AllKept, Edit.kind]

omit [DecidableEq α] in
/-- One item cannot be cut in two, so an added run that slides by a part of itself stays what
it is. -/
theorem append_swap_of_singleton {s t : List α} {a : α} (h : s ++ t = [a]) : t ++ s = [a] := by
  rcases List.append_eq_singleton_iff.1 h with ⟨rfl, rfl⟩ | ⟨rfl, rfl⟩ <;> rfl

/-- The cursor holds this edit, and all others are kept runs. This is what every move keeps. -/
structure Cursor.HoldsOnly (c : Cursor α) (e : Edit α) : Prop where
  here : c.here = e
  before : AllKept c.before
  beyond : AllKept c.beyond

theorem holdsOnly_raise {e : Edit α} {a : α} (he : e.Single a) {before beyond : List (Edit α)}
    (hbefore : AllKept before) (hbeyond : AllKept beyond) :
    (raise before e beyond).HoldsOnly e := by
  fun_induction raise before e beyond with
  | case1 beyond k rest run cut _ _ _ ih =>
      -- An add slides over the end of the kept run before it, and is about the same item then.
      obtain rfl : run = [a] := by cases he; rfl
      have hrun : cut.1 ++ cut.2.2 = [a] := append_swap_of_singleton (splitSharedEnd_new k [a])
      rw [hrun] at ih ⊢
      exact ih he (allKept_withKeep _ (List.forall_mem_cons.1 hbefore).2)
        (allKept_keepOnto _ hbeyond)
  | case2 _ _ _ _ _ ih | case4 _ _ _ ih => exact ih he (List.forall_mem_cons.1 hbefore).2 hbeyond
  | case3 | case5 | case10 => exact ⟨rfl, hbefore, hbeyond⟩
  | case6 | case7 | case8 | case9 =>
      -- Passing or joining another change does not happen: there is none.
      exact absurd (List.forall_mem_cons.1 hbefore).1 (by simp [Edit.kind])

theorem holdsOnly_lower {e : Edit α} {a : α} (he : e.Single a) {before beyond : List (Edit α)}
    (hbefore : AllKept before) (hbeyond : AllKept beyond) :
    (lower before e beyond).HoldsOnly e := by
  fun_induction lower before e beyond with
  | case1 before k rest run cut _ _ _ ih =>
      obtain rfl : run = [a] := by cases he; rfl
      have hrun : cut.2.2 ++ cut.1 = [a] := append_swap_of_singleton (splitShared_new k [a])
      rw [hrun] at ih ⊢
      exact ih he (allKept_keepBehind _ hbefore)
        (allKept_withKeep _ (List.forall_mem_cons.1 hbeyond).2)
  | case2 _ _ _ _ _ ih | case4 _ _ _ ih => exact ih he hbefore (List.forall_mem_cons.1 hbeyond).2
  | case3 | case5 | case10 => exact ⟨rfl, hbefore, hbeyond⟩
  | case6 | case7 | case8 | case9 =>
      exact absurd (List.forall_mem_cons.1 hbeyond).1 (by simp [Edit.kind])

theorem holdsOnly_settleOne {e : Edit α} {a : α} (he : e.Single a)
    {before beyond : List (Edit α)} (hbefore : AllKept before) (hbeyond : AllKept beyond) :
    (settleOne before e beyond).HoldsOnly e := by
  have hraised := holdsOnly_raise he hbefore hbeyond
  rw [settleOne, hraised.here]
  exact holdsOnly_lower he hraised.before hraised.beyond

theorem onlyChange_settleKind {e : Edit α} {a : α} (he : e.Single a) {k : EditKind}
    (hk : k ≠ .keep) {script : List (Edit α)} (h : OnlyChange e script) :
    OnlyChange e (settleKind k [] script) := by
  obtain ⟨before, after, rfl, hbefore, hafter⟩ := h
  have hpass : ∀ e ∈ before, e.kind ≠ k := fun e he => by rw [hbefore e he]; exact hk.symm
  rw [settleKind_append hpass, List.append_nil]
  by_cases hkind : e.kind = k
  · -- The pass comes to the edit, settles it, and finds kept runs only behind it.
    have hsettled := holdsOnly_settleOne he (allKept_reverse hbefore) hafter
    rw [settleKind, dif_pos hkind, settleKind_of_kept hk hsettled.beyond, hsettled.here]
    exact ⟨_, _, by simp, allKept_reverse hsettled.before, hsettled.beyond⟩
  · have hnone : ∀ e' ∈ e :: after, e'.kind ≠ k :=
      List.forall_mem_cons.2 ⟨hkind, fun e' he' => by rw [hafter e' he']; exact hk.symm⟩
    rw [settleKind_of_forall_ne hnone, List.reverse_reverse]
    exact ⟨before, after, rfl, hbefore, hafter⟩

/-- However the script is settled, the extra item stays the only change. -/
theorem onlyChange_settle {e : Edit α} {a : α} (he : e.Single a) {script : List (Edit α)}
    (h : OnlyChange e script) : OnlyChange e (settle script) :=
  onlyChange_settleKind he (by simp) (onlyChange_settleKind he (by simp) h)

end Script

/-! ### Regions -/

/-- One region is changed, and all others are equal. -/
def OnlyChangedRegion (r : Region) (regions : List Region) : Prop :=
  ∃ before after, regions = before ++ r :: after ∧
    (∀ s ∈ before, s.kind = .equal) ∧ ∀ s ∈ after, s.kind = .equal

namespace Region

theorem kind_ofEdit_of_single {e : Edit Text} {l : Text} (he : e.Single l) :
    (ofEdit e).kind ≠ .equal := by
  cases he <;> simp [ofEdit]

/-- Behind a change there are only equal regions, so it stays on its own. -/
theorem onto_of_equal {r : Region} (hr : r.kind ≠ .equal) {regions : List Region}
    (h : ∀ s ∈ regions, s.kind = .equal) : r.onto regions = r :: regions := by
  cases regions with
  | nil => rfl
  | cons s regions =>
      have hs := (List.forall_mem_cons.1 h).1
      simp [onto, isEqual, hr, hs]

/-- Kept runs in front of a change become equal regions in front of it. -/
theorem exists_ofScript_append {kept script : List (Edit Text)} (hkept : AllKept kept) {r : Region}
    {rest : List Region} (hr : r.kind ≠ .equal) (h : ofScript script = r :: rest) :
    ∃ front, ofScript (kept ++ script) = front ++ r :: rest ∧ ∀ s ∈ front, s.kind = .equal := by
  induction kept with
  | nil => exact ⟨[], h, by simp⟩
  | cons e kept ih =>
      obtain ⟨he, hkept⟩ := List.forall_mem_cons.1 hkept
      obtain ⟨front, hfront, hequal⟩ := ih hkept
      cases e with
      | keep run =>
          rw [List.cons_append, ofScript, hfront]
          split
          · exact ⟨front, rfl, hequal⟩
          · -- The new region stands in front of the change, or is joined with the first one.
            cases front with
            | nil => exact ⟨[⟨.equal, run, run⟩], by simp [ofEdit, onto, isEqual, hr], by simp⟩
            | cons first front =>
                rw [List.forall_mem_cons] at hequal
                refine ⟨(ofEdit (.keep run)).join first :: front, ?_, ?_⟩
                · simp [ofEdit, onto, isEqual, hequal.1]
                · exact List.forall_mem_cons.2 ⟨by simp [ofEdit, join, isEqual], hequal.2⟩
      | drop run => exact absurd he (by simp [Edit.kind])
      | add run => exact absurd he (by simp [Edit.kind])

theorem onlyChangedRegion_ofScript {e : Edit Text} {l : Text} (he : e.Single l)
    {script : List (Edit Text)} (h : OnlyChange e script) :
    OnlyChangedRegion (ofEdit e) (ofScript script) := by
  obtain ⟨before, after, rfl, hbefore, hafter⟩ := h
  have hkind := kind_ofEdit_of_single he
  have hequal := ofScript_of_kept hafter
  have hrun : e.run ≠ [] := by cases he <;> simp [Edit.run]
  have hchange : ofScript (e :: after) = ofEdit e :: ofScript after := by
    rw [ofScript, if_neg hrun, onto_of_equal hkind hequal]
  obtain ⟨front, hfront, hfrontEqual⟩ := exists_ofScript_append hbefore hkind hchange
  exact ⟨front, ofScript after, hfront, hfrontEqual, hequal⟩

end Region

/-! ### The text -/

/-- Where all changed regions differ by noise only, the whole reference text comes back, and
each region that is not already what the working text says counts. -/
theorem denoise_of_all_noise {profile : Option Grammar} {reference working : Text}
    (h : ∀ r ∈ align reference.lines working.lines, r.kind ≠ .equal →
      signature profile r.reference.flatten = signature profile r.working.flatten) :
    denoise profile reference working =
      ⟨reference, (align reference.lines working.lines).countP
        fun r => r.reference.flatten ≠ r.working.flatten⟩ := by
  have hjudge : ∀ r ∈ align reference.lines working.lines,
      (r.judge profile).lines = r.reference ∧
        (r.judge profile).reversions =
          if r.reference.flatten = r.working.flatten then 0 else 1 := by
    intro r hr
    by_cases hkind : r.kind = .equal
    · have hsides := (fits_of_mem_align hr).sides_eq hkind
      rw [Region.judge_of_equal profile hkind, if_pos (congrArg List.flatten hsides)]
      exact ⟨rfl, rfl⟩
    · rw [Region.judge_of_noise hkind (h r hr hkind)]
      exact ⟨rfl, rfl⟩
  have hcontent : (denoise profile reference working).content = reference := by
    rw [content_denoise, chosenText, List.flatMap_congr fun r hr => (hjudge r hr).1,
      reference_align, Text.flatten_lines]
  have hreversions : ∀ regions : List Region, (∀ r ∈ regions, (r.judge profile).reversions =
        if r.reference.flatten = r.working.flatten then 0 else 1) →
      (regions.map (Region.judge profile)).foldr (fun v n => v.reversions + n) 0 =
        regions.countP fun r => r.reference.flatten ≠ r.working.flatten := by
    intro regions hregions
    induction regions with
    | nil => rfl
    | cons r regions ih =>
        rw [List.forall_mem_cons] at hregions
        rw [List.map_cons, List.foldr_cons, ih hregions.2, hregions.1, List.countP_cons]
        by_cases hsame : r.reference.flatten = r.working.flatten <;> simp [hsame, Nat.add_comm]
  calc denoise profile reference working
      = ⟨(denoise profile reference working).content,
          (denoise profile reference working).reversions⟩ := rfl
    _ = _ := by
        rw [hcontent]
        exact congrArg _ (hreversions _ fun r hr => (hjudge r hr).2)

theorem countP_differs_of_equal {regions : List Region} (hfits : ∀ r ∈ regions, r.Fits)
    (h : ∀ r ∈ regions, r.kind = .equal) :
    regions.countP (fun r => r.reference.flatten ≠ r.working.flatten) = 0 := by
  rw [List.countP_eq_zero]
  intro r hr
  simp [(hfits r hr).sides_eq (h r hr)]

/-- Where the one changed region differs by noise only, the whole reference text comes back. -/
theorem denoise_of_only_noise {profile : Option Grammar} {reference working : Text} {r : Region}
    (h : OnlyChangedRegion r (align reference.lines working.lines))
    (hsame : signature profile r.reference.flatten = signature profile r.working.flatten)
    (hne : r.reference.flatten ≠ r.working.flatten) :
    denoise profile reference working = ⟨reference, 1⟩ := by
  obtain ⟨before, after, halign, hbefore, hafter⟩ := h
  have hfits : ∀ s ∈ before ++ r :: after, s.Fits := by
    rw [← halign]
    exact fun s hs => fits_of_mem_align hs
  simp only [List.forall_mem_append, List.forall_mem_cons] at hfits
  have hnoise : ∀ s ∈ align reference.lines working.lines, s.kind ≠ .equal →
      signature profile s.reference.flatten = signature profile s.working.flatten := by
    rw [halign]
    simp only [List.forall_mem_append, List.forall_mem_cons]
    exact ⟨fun s hs hne => absurd (hbefore s hs) hne, fun _ => hsame,
      fun s hs hne => absurd (hafter s hs) hne⟩
  rw [denoise_of_all_noise hnoise, halign, List.countP_append, List.countP_cons,
    countP_differs_of_equal hfits.1 hbefore, countP_differs_of_equal hfits.2.2 hafter,
    if_pos (by simpa using hne)]

/-- Two texts whose lines differ by one line that is noise, on whichever side it stands. -/
theorem denoise_of_single {profile : Option Grammar} {reference working l : Text}
    {e : Edit Text} (he : e.Single l) (hl : l ≠ []) (hnoise : signature profile l = [])
    {before after : List Text} (hreference : reference.lines = before ++ (e.reference ++ after))
    (hworking : working.lines = before ++ (e.working ++ after)) :
    denoise profile reference working = ⟨reference, 1⟩ := by
  have honly : OnlyChangedRegion (.ofEdit e) (align reference.lines working.lines) := by
    rw [hreference, hworking]
    exact Region.onlyChangedRegion_ofScript he
      (onlyChange_settle he (onlyChange_alignAt he (not_mem_anchors he before after) _ _))
  have hsame : signature profile (Region.ofEdit e).reference.flatten =
      signature profile (Region.ofEdit e).working.flatten := by
    cases he <;> simp [Region.ofEdit, signature_nil, hnoise]
  have hne : (Region.ofEdit e).reference.flatten ≠ (Region.ofEdit e).working.flatten := by
    cases he <;> simpa [Region.ofEdit]
  exact denoise_of_only_noise honly hsame hne

/-- **One line of noise is always undone**, wherever it stands and whatever lines it equals:
added to the reference text it is dropped, and missing from the working text it comes back,
each time in one piece and with nothing else changed. -/
theorem denoise_one_line {profile : Option Grammar} {reference working l : Text}
    {before after : List Text} (hreference : reference.lines = before ++ after)
    (hworking : working.lines = before ++ l :: after) (hnoise : signature profile l = []) :
    denoise profile reference working = ⟨reference, 1⟩ ∧
    denoise profile working reference = ⟨working, 1⟩ := by
  have hl : l ≠ [] := (Text.isLine_of_mem_lines (by rw [hworking]; simp)).ne_nil
  exact ⟨denoise_of_single .add hl hnoise hreference hworking,
    denoise_of_single .drop hl hnoise hworking hreference⟩

/-- A blank line between two blank lines and below a comment, in a text with two more of
them. -/
theorem denoise_one_line_of_blank_lines :
    Text.lines "a\n\n\n# b\n\n".toList =
      ["a\n".toList, "\n".toList] ++ ["\n".toList, "# b\n".toList, "\n".toList] ∧
    Text.lines "a\n\n\n\n# b\n\n".toList =
      ["a\n".toList, "\n".toList] ++
        "\n".toList :: ["\n".toList, "# b\n".toList, "\n".toList] ∧
    signature (some .hash) "\n".toList = [] ∧
    denoise (some .hash) "a\n\n\n# b\n\n".toList "a\n\n\n\n# b\n\n".toList =
      ⟨"a\n\n\n# b\n\n".toList, 1⟩ ∧
    denoise (some .hash) "a\n\n\n\n# b\n\n".toList "a\n\n\n# b\n\n".toList =
      ⟨"a\n\n\n\n# b\n\n".toList, 1⟩ := by
  have hreference : Text.lines "a\n\n\n# b\n\n".toList =
      ["a\n".toList, "\n".toList] ++ ["\n".toList, "# b\n".toList, "\n".toList] := by
    decide +kernel
  have hworking : Text.lines "a\n\n\n\n# b\n\n".toList =
      ["a\n".toList, "\n".toList] ++
        "\n".toList :: ["\n".toList, "# b\n".toList, "\n".toList] := by
    decide +kernel
  have hnoise : signature (some .hash) "\n".toList = [] := by decide +kernel
  exact ⟨hreference, hworking, hnoise, denoise_one_line hreference hworking hnoise⟩

end CleanDiff
