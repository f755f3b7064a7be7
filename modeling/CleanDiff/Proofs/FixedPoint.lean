import CleanDiff.Proofs.Meaning

/-!
# Texts that hold no noise

A text is a fixed point when taking its noise back gives it back and counts nothing.
`denoise_eq_self_iff` says which texts are: those whose regions *hold no noise*, as a
whole or, where a region is judged line by line, in one of its pairs. An unmodified text is
one, and it is a single equal region (`denoise_unmodified`).

The result of taking noise back need not be a fixed point (`not_denoise_again`). A line
that was restored on its own becomes a line both texts share, so the next alignment
cuts the region there, and a piece of it can be noise although the region was not.
`denoise_again_iff` says exactly when the second run has nothing to do.

What finds more is always the new alignment. Along the old one, with its verdicts carried out
(`Region.carriedOut`), nothing is left to do: restored regions are equal now, and of the other
ones no line that stayed is noise (`denoiseAlong_carriedOut`).
-/

namespace CleanDiff

namespace Region

/-! ### Noise in one region -/

/-- Would taking noise back change the region? Either the two sides differ by noise, or
they are judged line by line and the lines of some pair do. -/
def HoldsNoise (profile : Option Grammar) (r : Region) : Prop :=
  (signature profile r.reference.flatten = signature profile r.working.flatten ∧
    r.reference.flatten ≠ r.working.flatten) ∨
  (signature profile r.reference.flatten ≠ signature profile r.working.flatten ∧
    r.kind = .replace ∧ r.reference.length = r.working.length ∧
    ∃ pair ∈ r.reference.zip r.working,
      signature profile pair.1 = signature profile pair.2 ∧ pair.1 ≠ pair.2)

theorem not_holdsNoise_of_equal {profile : Option Grammar} {r : Region} (hkind : r.kind = .equal)
    (hsides : r.reference = r.working) : ¬ r.HoldsNoise profile := by
  intro h
  obtain ⟨-, hne⟩ | ⟨-, hreplace, -⟩ := h
  · exact hne (congrArg List.flatten hsides)
  · rw [hkind] at hreplace
    exact absurd hreplace (by simp)

theorem stayingLine_eq_working_iff {profile : Option Grammar} {reference working : Text} :
    stayingLine profile reference working = working ↔
      (signature profile reference = signature profile working → reference = working) := by
  rcases stayingLine_cases profile reference working with ⟨hsame, hline⟩ | ⟨hdiffer, hline⟩
  · rw [hline]
    exact ⟨fun h _ => h, fun h => h hsame⟩
  · rw [hline]
    exact ⟨fun _ h => absurd h hdiffer, fun _ => rfl⟩

theorem reversions_judgeLines_eq_countP (profile : Option Grammar) (r : Region) :
    (r.judgeLines profile).reversions =
      (r.reference.zip r.working).countP fun p => stayingLine profile p.1 p.2 ≠ p.2 := by
  simp only [judgeLines, List.zip_map', List.countP_map]
  rfl

theorem reversions_judgeLines_eq_zero_iff {profile : Option Grammar} {r : Region} :
    (r.judgeLines profile).reversions = 0 ↔
      ∀ pair ∈ r.reference.zip r.working,
        signature profile pair.1 = signature profile pair.2 → pair.1 = pair.2 := by
  simp only [reversions_judgeLines_eq_countP, List.countP_eq_zero, decide_eq_true_eq, not_not]
  exact forall₂_congr fun pair _ => stayingLine_eq_working_iff

theorem reversions_judge_eq_zero_iff {profile : Option Grammar} {r : Region}
    (hsides : r.kind = .equal → r.reference = r.working) :
    (r.judge profile).reversions = 0 ↔ ¬ r.HoldsNoise profile := by
  rcases judge_cases profile r with
    ⟨hkind, hj⟩ | ⟨-, hsame, hj⟩ | ⟨hkind, hlength, hdiffer, hj⟩ | ⟨-, hpairs, hdiffer, hj⟩
  · rw [hj]
    simp [HoldsNoise, hkind, hsides hkind]
  · rw [hj]
    simp [HoldsNoise, hsame]
  · rw [hj, reversions_judgeLines_eq_zero_iff]
    simp [HoldsNoise, hkind, hlength, hdiffer]
  · rw [hj]
    simp only [HoldsNoise, true_iff]
    rintro (⟨hsame, -⟩ | ⟨-, hkind, hlength, -⟩)
    · exact hdiffer hsame
    · exact hpairs ⟨hkind, hlength⟩

/-- A verdict that counts nothing changes nothing. -/
theorem flatten_judge_of_reversions_eq_zero {profile : Option Grammar} {r : Region}
    (hsides : r.kind = .equal → r.reference = r.working)
    (h : (r.judge profile).reversions = 0) :
    (r.judge profile).lines.flatten = r.working.flatten := by
  rcases judge_cases profile r with
    ⟨hkind, hj⟩ | ⟨-, -, hj⟩ | ⟨-, hlength, -, hj⟩ | ⟨-, -, -, hj⟩
  · rw [hj, hsides hkind]
  · rw [hj] at h ⊢
    by_contra hne
    exact absurd h (by simp [hne])
  · rw [hj, reversions_judgeLines_eq_zero_iff] at h
    have hpairs : ∀ pair ∈ r.reference.zip r.working,
        stayingLine profile pair.1 pair.2 = pair.2 :=
      fun pair hpair => stayingLine_eq_working_iff.2 (h pair hpair)
    have hlines : (r.judgeLines profile).lines = r.working :=
      calc (r.judgeLines profile).lines
          = (r.reference.zip r.working).map Prod.snd := List.map_congr_left hpairs
        _ = r.working := List.map_snd_zip (Nat.le_of_eq hlength.symm)
    rw [hj, hlines]
  · rw [hj]

end Region

/-! ### Noise in a whole text -/

theorem reversions_denoiseAlong_eq_zero_iff {profile : Option Grammar}
    {script : List (Edit Text)} :
    (denoiseAlong profile script).reversions = 0 ↔
      ∀ r ∈ Region.ofScript script, (r.judge profile).reversions = 0 := by
  simp only [denoiseAlong]
  induction Region.ofScript script with
  | nil => simp
  | cons r regions ih =>
      rw [List.map_cons, List.foldr_cons, Nat.add_eq_zero_iff, ih, List.forall_mem_cons]

theorem reversions_denoise_eq_zero_iff {profile : Option Grammar} {reference working : Text} :
    (denoise profile reference working).reversions = 0 ↔
      ∀ r ∈ align reference.lines working.lines, (r.judge profile).reversions = 0 :=
  reversions_denoiseAlong_eq_zero_iff

theorem flatten_flatMap_lines (f : Region → List Text) (regions : List Region) :
    (regions.flatMap f).flatten = regions.flatMap fun r => (f r).flatten := by
  rw [List.flatMap_def, List.flatten_flatten, List.map_map]
  rfl

/-- However two sequences of lines are aligned, verdicts that count nothing choose the
working lines. -/
theorem Aligned.chosenText_of_reversions_eq_zero {profile : Option Grammar}
    {regions : List Region} {reference working : List Text}
    (haligned : Aligned regions reference working)
    (h : ∀ r ∈ regions, (r.judge profile).reversions = 0) :
    chosenText profile regions = working.flatten := by
  have hregions : ∀ r ∈ regions, (r.judge profile).lines.flatten = r.working.flatten := by
    intro r hr
    exact Region.flatten_judge_of_reversions_eq_zero (haligned.sides_eq r hr) (h r hr)
  calc chosenText profile regions
      = regions.flatMap fun r => (r.judge profile).lines.flatten :=
        flatten_flatMap_lines _ regions
    _ = regions.flatMap fun r => r.working.flatten := List.flatMap_congr hregions
    _ = (regions.flatMap Region.working).flatten := (flatten_flatMap_lines _ regions).symm
    _ = working.flatten := by rw [haligned.working]

/-- Where nothing is counted, the text stays as it is. -/
theorem content_of_reversions_eq_zero {profile : Option Grammar} {reference working : Text}
    (h : (denoise profile reference working).reversions = 0) :
    (denoise profile reference working).content = working := by
  have haligned := aligned_align reference.lines working.lines
  rw [reversions_denoise_eq_zero_iff] at h
  rw [content_denoise, haligned.chosenText_of_reversions_eq_zero h, Text.flatten_lines]

/-- A text is left alone exactly when no region of it holds noise. -/
theorem denoise_eq_self_iff {profile : Option Grammar} {reference working : Text} :
    denoise profile reference working = ⟨working, 0⟩ ↔
      ∀ r ∈ align reference.lines working.lines, ¬ r.HoldsNoise profile := by
  have hcount : (denoise profile reference working).reversions = 0 ↔
      ∀ r ∈ align reference.lines working.lines, ¬ r.HoldsNoise profile := by
    rw [reversions_denoise_eq_zero_iff]
    have haligned := aligned_align reference.lines working.lines
    exact forall₂_congr fun r hr => Region.reversions_judge_eq_zero_iff (haligned.sides_eq r hr)
  rw [← hcount]
  constructor
  · intro h
    rw [h]
  · intro h
    calc denoise profile reference working
        = ⟨(denoise profile reference working).content,
            (denoise profile reference working).reversions⟩ := rfl
      _ = ⟨working, 0⟩ := by rw [content_of_reversions_eq_zero h, h]

/-! ### A text aligned with itself -/

section Self

variable {α : Type} [DecidableEq α]

theorem splitShared_append (l m : List α) : splitShared l (l ++ m) = (l, [], m) := by
  induction l with
  | nil => cases m <;> rfl
  | cons a l ih => simp [splitShared, ih]

theorem splitShared_self (l : List α) : splitShared l l = (l, [], []) := by
  simpa using splitShared_append l []

theorem divide_self (l : List α) : divide l l = Edit.keepRun l := by
  have htrim : trimShared l l = ⟨l, [], [], []⟩ := by
    simp [trimShared, splitShared_self, splitSharedEnd]
  rw [divide]
  simp [htrim, Trimmed.around, Edit.dropRun, Edit.addRun, Edit.keepRun]

/-- Cutting at the same places on both sides leaves the same pieces, so all is kept. -/
theorem kind_alignAt_self (anchors l : List α) :
    ∀ e ∈ alignAt anchors l l, e.kind = .keep := by
  have hpiece : ∀ piece : List α, ∀ e ∈ divide piece piece, e.kind = .keep := by
    intro piece e he
    rw [divide_self] at he
    cases piece with
    | nil => exact absurd he (by simp [Edit.keepRun])
    | cons a piece => rw [List.mem_singleton.1 he]; rfl
  -- An anchor stands at the same place on both sides, so what is left behind it is again
  -- one list aligned with itself.
  induction anchors generalizing l with
  | nil => exact hpiece l
  | cons a anchors ih =>
      intro e he
      rcases List.mem_append.1 he with he | he
      · exact hpiece _ e he
      · exact ih _ e he

/-- Edits of other kinds are passed over. -/
theorem settleKind_append {k : EditKind} {passed : List (Edit α)}
    (h : ∀ e ∈ passed, e.kind ≠ k) (before beyond : List (Edit α)) :
    settleKind k before (passed ++ beyond) = settleKind k (passed.reverse ++ before) beyond := by
  induction passed generalizing before with
  | nil => rfl
  | cons e passed ih =>
      rw [List.forall_mem_cons] at h
      rw [List.cons_append, settleKind, dif_neg h.1, ih h.2]
      simp

theorem settleKind_of_forall_ne {k : EditKind} {before beyond : List (Edit α)}
    (h : ∀ e ∈ beyond, e.kind ≠ k) : settleKind k before beyond = before.reverse ++ beyond := by
  simpa [settleKind] using settleKind_append h before []

theorem settleKind_of_kept {k : EditKind} (hk : k ≠ .keep) {before beyond : List (Edit α)}
    (h : ∀ e ∈ beyond, e.kind = .keep) : settleKind k before beyond = before.reverse ++ beyond :=
  settleKind_of_forall_ne fun e he => by rw [h e he]; exact hk.symm

end Self

namespace Region

theorem ofScript_cons_of_nil {e : Edit Text} (h : e.run = []) (script : List (Edit Text)) :
    ofScript (e :: script) = ofScript script := by
  rw [ofScript, if_pos h]

theorem ofScript_cons_of_ne {e : Edit Text} (h : e.run ≠ []) (script : List (Edit Text)) :
    ofScript (e :: script) = (ofEdit e).onto (ofScript script) := by
  rw [ofScript, if_neg h]

/-- Put in front of some regions, kept lines are an equal region or join one. -/
theorem mem_onto_keep {run : List Text} {regions : List Region} {s : Region}
    (h : s ∈ (ofEdit (.keep run)).onto regions) : s.kind = .equal ∨ s ∈ regions := by
  cases regions with
  | nil =>
      rw [onto, List.mem_singleton] at h
      rw [h]
      exact Or.inl rfl
  | cons t rest =>
      rw [onto] at h
      split at h
      · rcases List.mem_cons.1 h with hjoin | hmem
        · rw [hjoin]
          exact Or.inl rfl
        · exact Or.inr (List.mem_cons_of_mem t hmem)
      · rcases List.mem_cons.1 h with hkeep | hmem
        · rw [hkeep]
          exact Or.inl rfl
        · exact Or.inr hmem

theorem mem_ofScript_keep {run : List Text} {script : List (Edit Text)} {s : Region}
    (h : s ∈ ofScript (.keep run :: script)) : s.kind = .equal ∨ s ∈ ofScript script := by
  by_cases hrun : (Edit.keep run).run = []
  · rw [ofScript_cons_of_nil hrun] at h
    exact Or.inr h
  · rw [ofScript_cons_of_ne hrun] at h
    exact mem_onto_keep h

theorem ofScript_of_kept {script : List (Edit Text)} (h : ∀ e ∈ script, e.kind = .keep) :
    ∀ r ∈ ofScript script, r.kind = .equal := by
  induction script with
  | nil => simp [ofScript]
  | cons e rest ih =>
      rw [List.forall_mem_cons] at h
      intro r hr
      cases e with
      | keep run =>
          rcases mem_ofScript_keep hr with hequal | hrest
          · exact hequal
          · exact ih h.2 r hrest
      | drop run => exact absurd h.1 (by simp [Edit.kind])
      | add run => exact absurd h.1 (by simp [Edit.kind])

end Region

/-- Aligned with itself, a text has nothing but lines that both sides share. -/
theorem kind_of_mem_align_self {lines : List Text} {r : Region} (h : r ∈ align lines lines) :
    r.kind = .equal := by
  have hkept := kind_alignAt_self (anchors lines lines) lines
  rw [align, settle, anchoredScript, settleKind_of_kept (by simp) hkept,
    settleKind_of_kept (by simp) (by simpa using hkept)] at h
  exact Region.ofScript_of_kept (by simpa using hkept) r h

/-- Aligned with themselves some lines are one region, however they repeat. -/
theorem align_self (lines : List Text) :
    align lines lines = if lines = [] then [] else [⟨.equal, lines, lines⟩] := by
  have htiles : Tiles (align lines lines) lines lines :=
    tiles_ofScript (covers_align_script lines lines)
  by_cases hnil : lines = []
  · rw [if_pos hnil]
    exact htiles.eq_nil_iff.2 ⟨hnil, hnil⟩
  · rw [if_neg hnil]
    have hne : align lines lines ≠ [] := fun h => hnil (htiles.eq_nil_iff.1 h).1
    exact htiles.eq_equal (fun r hr => kind_of_mem_align_self hr) hne

/-- The reference text itself holds no noise. -/
theorem denoise_self (profile : Option Grammar) (t : Text) : denoise profile t t = ⟨t, 0⟩ := by
  rw [denoise_eq_self_iff]
  intro r hr
  have hkind := kind_of_mem_align_self hr
  exact Region.not_holdsNoise_of_equal hkind ((fits_of_mem_align hr).sides_eq hkind)

/-- **An unmodified text is left alone**, whatever lines repeat in it: aligned with itself it is
one equal region, or none if it is empty, and nothing of it is taken back. -/
theorem denoise_unmodified (profile : Option Grammar) (t : Text) :
    align t.lines t.lines = (if t = [] then [] else [⟨.equal, t.lines, t.lines⟩]) ∧
    denoise profile t t = ⟨t, 0⟩ := by
  have hempty : t.lines = [] ↔ t = [] := by
    constructor
    · intro h
      rw [← Text.flatten_lines t, h, List.flatten_nil]
    · rintro rfl
      rfl
  refine ⟨?_, denoise_self profile t⟩
  rw [align_self]
  simp only [hempty]

/-! ### What a run leaves behind -/

namespace Region

/-- The edits that are left of a region when its verdict has been carried out. -/
def carriedOut (profile : Option Grammar) (r : Region) : List (Edit Text) :=
  if (r.judge profile).lines = r.reference then [.keep r.reference]
  else [.drop r.reference, .add (r.judge profile).lines]

theorem carriedOut_of_ne {profile : Option Grammar} {r : Region}
    (h : (r.judge profile).lines ≠ r.reference) :
    r.carriedOut profile = [.drop r.reference, .add (r.judge profile).lines] := by
  rw [carriedOut, if_neg h]

theorem carriedOut_of_equal (profile : Option Grammar) {r : Region} (h : r.kind = .equal) :
    r.carriedOut profile = [.keep r.reference] := by
  rw [carriedOut, judge_of_equal profile h, if_pos rfl]

theorem covers_carriedOut (profile : Option Grammar) (regions : List Region) :
    Covers (regions.flatMap (carriedOut profile)) (regions.flatMap reference)
      (regions.flatMap fun r => (r.judge profile).lines) := by
  have hone : ∀ r : Region, (r.carriedOut profile).flatMap Edit.reference = r.reference ∧
      (r.carriedOut profile).flatMap Edit.working = (r.judge profile).lines := by
    intro r
    unfold carriedOut
    split
    · next hsame => simp [Edit.reference, Edit.working, hsame]
    · simp [Edit.reference, Edit.working]
  constructor
  · rw [List.flatMap_assoc]
    exact List.flatMap_congr fun r _ => (hone r).1
  · rw [List.flatMap_assoc]
    exact List.flatMap_congr fun r _ => (hone r).2

/-- Does an equal region stand in front, or none at all? -/
def EqualFirst (regions : List Region) : Prop := ∀ r ∈ regions.head?, r.isEqual = true

theorem equalFirst_ofScript_keep {run : List Text} (h : run ≠ []) (script : List (Edit Text)) :
    EqualFirst (ofScript (.keep run :: script)) := by
  have hrun : (Edit.keep run).run ≠ [] := h
  have hkeep : (ofEdit (.keep run)).isEqual = true := rfl
  rw [ofScript_cons_of_ne hrun]
  intro r hr
  cases hrest : ofScript script with
  | nil =>
      rw [hrest] at hr
      obtain rfl := Option.some.inj hr
      exact hkeep
  | cons s regions =>
      rw [hrest, onto] at hr
      split at hr
      · next hsort =>
        obtain rfl := Option.some.inj hr
        rw [isEqual_join hsort, ← hsort, hkeep]
      · obtain rfl := Option.some.inj hr
        exact hkeep

theorem onto_of_equalFirst {r : Region} {regions : List Region} (hr : r.isEqual = false)
    (h : EqualFirst regions) : r.onto regions = r :: regions := by
  cases regions with
  | nil => rfl
  | cons s rest =>
      have hs : s.isEqual = true := h s rfl
      rw [onto, if_neg (by simp [hr, hs])]

/-- Lines that are dropped and others that are added in their place are one region, in front of
an equal one. -/
theorem ofScript_exchange {o n : List Text} (h : o ≠ n) {script : List (Edit Text)}
    (hscript : EqualFirst (ofScript script)) :
    ofScript (.drop o :: .add n :: script) = ⟨.ofSides o n, o, n⟩ :: ofScript script := by
  have hdrop : (ofEdit (.drop o)).isEqual = false := rfl
  have hadd : (ofEdit (.add n)).isEqual = false := rfl
  have hadded : n ≠ [] → ofScript (.add n :: script) = ofEdit (.add n) :: ofScript script := by
    intro hn
    rw [ofScript_cons_of_ne (e := .add n) hn, onto_of_equalFirst hadd hscript]
  by_cases ho : o = []
  · have hn : n ≠ [] := fun hn => h (ho.trans hn.symm)
    rw [ofScript_cons_of_nil (e := .drop o) ho, hadded hn, ho]
    rfl
  · rw [ofScript_cons_of_ne (e := .drop o) ho]
    by_cases hn : n = []
    · rw [ofScript_cons_of_nil (e := .add n) hn, onto_of_equalFirst hdrop hscript, hn,
        RegionKind.ofSides, if_neg ho, if_pos rfl]
      rfl
    · rw [hadded hn, onto, if_pos (hdrop.trans hadd.symm)]
      simp [join, ofEdit, isEqual]

/-- Behind a changed region comes an equal one, which stays in front. -/
theorem equalFirst_carriedOut (profile : Option Grammar) {r : Region} {rest : List Region}
    (hfits : ∀ s ∈ rest, s.Fits) (halternates : Alternates (r :: rest)) (hkind : r.kind ≠ .equal) :
    EqualFirst (ofScript (rest.flatMap (carriedOut profile))) := by
  cases rest with
  | nil => simp [EqualFirst, ofScript]
  | cons s rest =>
      have hequal := halternates.next_equal hkind
      have hne := (List.forall_mem_cons.1 hfits).1.reference_ne_nil hequal
      rw [List.flatMap_cons, carriedOut_of_equal profile hequal]
      exact equalFirst_ofScript_keep hne _

/-- When the verdicts have been carried out, every region is equal, or it has its reference
lines beside the lines that were chosen. -/
theorem ofScript_carriedOut (profile : Option Grammar) {regions : List Region}
    (hfits : ∀ r ∈ regions, r.Fits) (halternates : Alternates regions) :
    ∀ s ∈ ofScript (regions.flatMap (carriedOut profile)), s.kind = .equal ∨
      ∃ r ∈ regions, (r.judge profile).lines ≠ r.reference ∧
        s = ⟨.ofSides r.reference (r.judge profile).lines, r.reference,
          (r.judge profile).lines⟩ := by
  induction regions with
  | nil => simp [ofScript]
  | cons r rest ih =>
      rw [List.forall_mem_cons] at hfits
      have hrest : ∀ s ∈ ofScript (rest.flatMap (carriedOut profile)), s.kind = .equal ∨
          ∃ t ∈ r :: rest, (t.judge profile).lines ≠ t.reference ∧
            s = ⟨.ofSides t.reference (t.judge profile).lines, t.reference,
              (t.judge profile).lines⟩ := by
        intro s hs
        obtain hequal | ⟨t, ht, hchanged⟩ := ih hfits.2 halternates.tail s hs
        · exact Or.inl hequal
        · exact Or.inr ⟨t, List.mem_cons_of_mem r ht, hchanged⟩
      intro s hs
      rw [List.flatMap_cons] at hs
      by_cases hsame : (r.judge profile).lines = r.reference
      · rw [carriedOut, if_pos hsame, List.singleton_append] at hs
        rcases mem_ofScript_keep hs with hequal | hs
        · exact Or.inl hequal
        · exact hrest s hs
      · have hkind : r.kind ≠ .equal := by
          intro hkind
          exact hsame (by rw [judge_of_equal profile hkind])
        -- The equal region behind this one does not join it.
        have hfirst := equalFirst_carriedOut profile hfits.2 halternates hkind
        rw [carriedOut_of_ne hsame, List.cons_append, List.singleton_append,
          ofScript_exchange (Ne.symm hsame) hfirst] at hs
        rcases List.mem_cons.1 hs with hs | hs
        · exact Or.inr ⟨r, List.mem_cons_self, hsame, hs⟩
        · exact hrest s hs

/-- The line that stays of a pair differs from the reference line in meaning, or not at all. -/
theorem eq_of_mem_zip_stayingLine {profile : Option Grammar} {reference working : List Text}
    {pair : Text × Text}
    (h : pair ∈ reference.zip (reference.zipWith (stayingLine profile) working))
    (hsame : signature profile pair.1 = signature profile pair.2) : pair.1 = pair.2 := by
  induction reference generalizing working with
  | nil => exact absurd h (by simp)
  | cons a reference ih =>
      cases working with
      | nil => exact absurd h (by simp)
      | cons b working =>
          rw [List.zipWith_cons_cons, List.zip_cons_cons] at h
          rcases List.mem_cons.1 h with hpair | h
          · rw [hpair] at hsame ⊢
            rcases stayingLine_cases profile a b with ⟨-, hline⟩ | ⟨hdiffer, hline⟩
            · exact hline.symm
            · exact absurd (hsame.trans (congrArg _ hline)) hdiffer
          · exact ih h

/-- Where a region does not have its reference lines back, its sides differ in meaning. -/
theorem signature_ne_of_lines_ne {profile : Option Grammar} {r : Region}
    (h : (r.judge profile).lines ≠ r.reference) :
    signature profile r.reference.flatten ≠ signature profile r.working.flatten := by
  intro hsame
  rcases judge_cases profile r with ⟨-, hj⟩ | ⟨-, -, hj⟩ | ⟨-, -, hdiffer, -⟩ | ⟨-, -, hdiffer, -⟩
  · exact h (by rw [hj])
  · exact h (by rw [hj])
  · exact hdiffer hsame
  · exact hdiffer hsame

/-- Judged once more beside the lines that were chosen for it, a region holds no noise, unless
its sides now differ by noise as a whole. -/
theorem not_holdsNoise_of_chosen {profile : Option Grammar} {r : Region} (hr : r.Fits)
    (hne : (r.judge profile).lines ≠ r.reference)
    (hdiffer : signature profile r.reference.flatten ≠
      signature profile (r.judge profile).lines.flatten) :
    ¬ HoldsNoise profile ⟨.ofSides r.reference (r.judge profile).lines, r.reference,
      (r.judge profile).lines⟩ := by
  intro h
  obtain ⟨hsame, -⟩ | ⟨-, hkind, hlength, pair, hpair, hsame, hdiffers⟩ := h
  · exact hdiffer hsame
  rcases judge_cases profile r with
    ⟨-, hj⟩ | ⟨-, -, hj⟩ | ⟨-, -, -, hj⟩ | ⟨hchanged, hpairs, -, hj⟩
  · exact hne (by rw [hj])
  · exact hne (by rw [hj])
  · rw [hj, judgeLines_lines] at hpair
    exact hdiffers (eq_of_mem_zip_stayingLine hpair hsame)
  · rw [hj] at hkind hlength
    exact hpairs ⟨(hr.kind_eq_ofSides hchanged).trans hkind, hlength⟩

end Region

/-- Along the alignment that a run has used, with its verdicts carried out, **nothing is left to
do**, as long as no region was changed until it differs by noise only. -/
theorem denoiseAlong_carriedOut {profile : Option Grammar} {regions : List Region}
    {reference working : List Text} (h : Tiles regions reference working)
    (hdiffer : ∀ r ∈ regions, (r.judge profile).lines ≠ r.reference →
      signature profile r.reference.flatten ≠ signature profile (r.judge profile).lines.flatten) :
    denoiseAlong profile (regions.flatMap (Region.carriedOut profile)) =
      ⟨chosenText profile regions, 0⟩ := by
  have hcovers := Region.covers_carriedOut profile regions
  have haligned := aligned_ofScript hcovers
  have hzero : ∀ s ∈ Region.ofScript (regions.flatMap (Region.carriedOut profile)),
      (s.judge profile).reversions = 0 := by
    intro s hs
    rw [Region.reversions_judge_eq_zero_iff (haligned.sides_eq s hs)]
    rcases Region.ofScript_carriedOut profile h.fits h.alternates s hs with
      hequal | ⟨r, hr, hne, rfl⟩
    · exact Region.not_holdsNoise_of_equal hequal (haligned.sides_eq s hs hequal)
    · exact Region.not_holdsNoise_of_chosen (h.fits r hr) hne (hdiffer r hr hne)
  have hcontent : (denoiseAlong profile (regions.flatMap (Region.carriedOut profile))).content =
      chosenText profile regions := by
    rw [content_denoiseAlong, haligned.chosenText_of_reversions_eq_zero hzero, chosenText]
  have hcount := reversions_denoiseAlong_eq_zero_iff.2 hzero
  calc denoiseAlong profile (regions.flatMap (Region.carriedOut profile))
      = ⟨(denoiseAlong profile (regions.flatMap (Region.carriedOut profile))).content,
          (denoiseAlong profile (regions.flatMap (Region.carriedOut profile))).reversions⟩ := rfl
    _ = ⟨chosenText profile regions, 0⟩ := by rw [hcontent, hcount]

/-- Where no token crosses the end of a line, no region is changed until it differs by noise
only: what was chosen for it means what its working lines mean. -/
theorem denoiseAlong_carriedOut_of_neutral {profile : Option Grammar} {reference working : Text}
    (hreference : ∀ l ∈ reference.lines, ∀ g ∈ profile, g.Neutral l)
    (hworking : ∀ l ∈ working.lines, ∀ g ∈ profile, g.Neutral l) :
    denoiseAlong profile
        ((align reference.lines working.lines).flatMap (Region.carriedOut profile)) =
      ⟨(denoise profile reference working).content, 0⟩ := by
  have htiles : Tiles (align reference.lines working.lines) reference.lines working.lines :=
    tiles_ofScript (covers_align_script _ _)
  rw [content_denoise]
  refine denoiseAlong_carriedOut htiles fun r hr hne => ?_
  have hneutral : ∀ l ∈ r.reference, ∀ g ∈ profile, g.Neutral l :=
    fun l hl => hreference l (htiles.mem_reference hr hl)
  have hneutral' : ∀ l ∈ r.working, ∀ g ∈ profile, g.Neutral l :=
    fun l hl => hworking l (htiles.mem_working hr hl)
  have hchosen : ∀ l ∈ (r.judge profile).lines, ∀ g ∈ profile, g.Neutral l := by
    intro l hl
    rcases Region.mem_sides_of_mem_judge hl with hside | hside
    · exact hneutral l hside
    · exact hneutral' l hside
  have hdiffer := Region.signature_ne_of_lines_ne hne
  rwa [signature_flatten hchosen,
    Region.flatMap_signature_judge (htiles.sides_eq r hr) hneutral hneutral',
    ← signature_flatten hneutral']

/-! ### A second run -/

/-- Taking noise back a second time **leaves the text alone exactly when no region of the
new alignment holds noise**. In particular nothing is left to do behind a run that
changed nothing, and behind one that restored the whole reference text.

Of other verdicts no more can be said without the new alignment: it can differ from the old
one as soon as one region is restored (`not_denoise_again_of_whole`). Only along the old one,
with the verdicts carried out, the second run has nothing to do, if the first has not changed
a region until it differs by noise only. -/
theorem denoise_again_iff (profile : Option Grammar) (reference working : Text) :
    (denoise profile reference (denoise profile reference working).content =
        ⟨(denoise profile reference working).content, 0⟩ ↔
      ∀ r ∈ align reference.lines (Text.lines (denoise profile reference working).content),
        ¬ r.HoldsNoise profile) ∧
    ((denoise profile reference working).reversions = 0 ∨
        (denoise profile reference working).content = reference →
      denoise profile reference (denoise profile reference working).content =
        ⟨(denoise profile reference working).content, 0⟩) ∧
    ((∀ r ∈ align reference.lines working.lines, (r.judge profile).lines ≠ r.reference →
        signature profile r.reference.flatten ≠
          signature profile (r.judge profile).lines.flatten) →
      denoiseAlong profile
          ((align reference.lines working.lines).flatMap (Region.carriedOut profile)) =
        ⟨(denoise profile reference working).content, 0⟩) := by
  refine ⟨denoise_eq_self_iff, ?_, ?_⟩
  · intro hfirst
    rcases hfirst with hzero | hall
    · have hcontent := content_of_reversions_eq_zero hzero
      calc denoise profile reference (denoise profile reference working).content
          = denoise profile reference working := by rw [hcontent]
        _ = ⟨(denoise profile reference working).content, 0⟩ := by rw [← hzero]
    · rw [hall]
      exact denoise_self profile reference
  · intro hdiffer
    rw [content_denoise]
    exact denoiseAlong_carriedOut (tiles_ofScript (covers_align_script _ _)) hdiffer

/-- A comment that was added is dropped, and the second run finds the reference text. -/
theorem denoise_again_of_added_comment :
    (denoise (some .hash) "x\n".toList "x\n# a\n".toList).content = "x\n".toList ∧
    denoise (some .hash) "x\n".toList
        (denoise (some .hash) "x\n".toList "x\n# a\n".toList).content =
      ⟨(denoise (some .hash) "x\n".toList "x\n# a\n".toList).content, 0⟩ ∧
    denoiseAlong (some .hash)
        ((align (Text.lines "x\n".toList) (Text.lines "x\n# a\n".toList)).flatMap
          (Region.carriedOut (some .hash))) =
      ⟨(denoise (some .hash) "x\n".toList "x\n# a\n".toList).content, 0⟩ := by
  have hfirst : denoise (some .hash) "x\n".toList "x\n# a\n".toList = ⟨"x\n".toList, 1⟩ := by cbv
  have hall := congrArg Denoised.content hfirst
  have halign : align (Text.lines "x\n".toList) (Text.lines "x\n# a\n".toList) =
      [⟨.equal, ["x\n".toList], ["x\n".toList]⟩, ⟨.insert, [], ["# a\n".toList]⟩] := by cbv
  have hagain := denoise_again_iff (some .hash) "x\n".toList "x\n# a\n".toList
  exact ⟨hall, hagain.2.1 (Or.inr hall), hagain.2.2 (by rw [halign]; decide +kernel)⟩

/-- A second run can find noise that the first did not see. The third line is restored on
its own; with it out of the way the two lines before it differ by a line break only. -/
theorem not_denoise_again :
    ¬ ∀ (profile : Option Grammar) (reference working : Text),
      denoise profile reference (denoise profile reference working).content =
        ⟨(denoise profile reference working).content, 0⟩ := by
  have hfirst : denoise none "ab\nc\nx\ny\n".toList "a\nbc\n x\nY\n".toList =
      ⟨"a\nbc\nx\nY\n".toList, 1⟩ := by
    have hscript : anchoredScript (Text.lines "ab\nc\nx\ny\n".toList)
        (Text.lines "a\nbc\n x\nY\n".toList) =
        [.add ["a\n".toList, "bc\n".toList, " x\n".toList, "Y\n".toList],
          .drop ["ab\n".toList, "c\n".toList, "x\n".toList, "y\n".toList]] := by
      decide +kernel
    rw [denoise, align, hscript, show settle _ = _ by cbv]
    decide +kernel
  have hsecond : denoise none "ab\nc\nx\ny\n".toList "a\nbc\nx\nY\n".toList =
      ⟨"ab\nc\nx\nY\n".toList, 1⟩ := by
    have hscript : anchoredScript (Text.lines "ab\nc\nx\ny\n".toList)
        (Text.lines "a\nbc\nx\nY\n".toList) =
        [.add ["a\n".toList, "bc\n".toList], .drop ["ab\n".toList, "c\n".toList],
          .keep ["x\n".toList], .add ["Y\n".toList], .drop ["y\n".toList]] := by
      decide +kernel
    rw [denoise, align, hscript, show settle _ = _ by cbv]
    decide +kernel
  intro h
  have hagain := h none "ab\nc\nx\ny\n".toList "a\nbc\n x\nY\n".toList
  rw [hfirst, hsecond] at hagain
  exact absurd hagain (by decide)

/-- It can do so where every region was judged as a whole. The blank line in front comes back,
so the next alignment begins there; and two lines of which one was dropped and the other
added somewhere else stand opposite each other now. -/
theorem not_denoise_again_of_whole :
    ¬ ∀ (profile : Option Grammar) (reference working : Text),
      (∀ r ∈ align reference.lines working.lines,
        (r.judge profile).lines = r.reference ∨ (r.judge profile).lines = r.working) →
      denoise profile reference (denoise profile reference working).content =
        ⟨(denoise profile reference working).content, 0⟩ := by
  have halign : align (Text.lines "\na\n a\n a\n".toList) (Text.lines "a\n a\na\n".toList) =
      Region.ofScript [.drop ["\n".toList], .keep ["a\n".toList], .drop [" a\n".toList],
        .keep [" a\n".toList], .add ["a\n".toList]] := by
    have hscript : anchoredScript (Text.lines "\na\n a\n a\n".toList)
        (Text.lines "a\n a\na\n".toList) =
        [.drop ["\n".toList], .keep ["a\n".toList], .drop [" a\n".toList],
          .keep [" a\n".toList], .add ["a\n".toList]] := by
      decide +kernel
    rw [align, hscript, show settle _ = _ by cbv]
    rfl
  have halign' : align (Text.lines "\na\n a\n a\n".toList)
      (Text.lines "\na\n a\na\n".toList) =
      Region.ofScript [.keep ["\n".toList, "a\n".toList, " a\n".toList],
        .drop [" a\n".toList], .add ["a\n".toList]] := by
    have hscript : anchoredScript (Text.lines "\na\n a\n a\n".toList)
        (Text.lines "\na\n a\na\n".toList) =
        [.keep ["\n".toList, "a\n".toList, " a\n".toList], .add ["a\n".toList],
          .drop [" a\n".toList]] := by
      decide +kernel
    rw [align, hscript, show settle _ = _ by cbv]
    rfl
  have hfirst : denoise none "\na\n a\n a\n".toList "a\n a\na\n".toList =
      ⟨"\na\n a\na\n".toList, 1⟩ := by
    rw [denoise, halign]
    decide +kernel
  have hsecond : denoise none "\na\n a\n a\n".toList "\na\n a\na\n".toList =
      ⟨"\na\n a\n a\n".toList, 1⟩ := by
    rw [denoise, halign']
    decide +kernel
  intro h
  have hagain := h none "\na\n a\n a\n".toList "a\n a\na\n".toList
    (by rw [halign]; decide +kernel)
  rw [hfirst, hsecond] at hagain
  exact absurd hagain (by decide)

end CleanDiff
