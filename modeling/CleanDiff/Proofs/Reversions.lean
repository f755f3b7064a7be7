import CleanDiff.Proofs.FixedPoint
import CleanDiff.Proofs.LineAccuracy

/-!
# What the reversions count

A verdict counts what it takes back, and a cleaner trusts that count alone when it leaves a file
as it is. **The count is exact** (`reversions_exact`): it is zero exactly if the text chosen is
the working text, and where a region is judged line by line it is the number of places at which
the line chosen is not the working line.

That a positive count means another text is no matter of course, since different lines can make
one text. Here they do not. Lines chosen one by one are as many as the working lines. If they
made the same text, cutting it would give the working lines, which are as many again; but lines
that are put together and cut become fewer, or are the same lines (`eq_working_of_flatten_eq`).

Nor is more counted than there is: `reversions_denoise_le` bounds the count by the lines of the
two texts. There can be one on every line but the last (`reversions_denoise_emptyLines`).
-/

namespace CleanDiff

namespace Region

variable {profile : Option Grammar} {r : Region}

/-! ### A region judged line by line -/

theorem judge_of_perLine {sides : List Side} (h : (r.judge profile).ruling = .perLine sides) :
    r.judge profile = r.judgeLines profile ∧ r.reference.length = r.working.length := by
  rcases judge_cases profile r with ⟨-, hj⟩ | ⟨-, -, hj⟩ | ⟨-, hlength, -, hj⟩ | ⟨-, -, -, hj⟩
  · rw [hj] at h
    exact absurd h (by simp)
  · rw [hj] at h
    exact absurd h (by simp)
  · exact ⟨hj, hlength⟩
  · rw [hj] at h
    exact absurd h (by simp)

theorem length_judgeLines (hlength : r.reference.length = r.working.length) :
    (r.judgeLines profile).lines.length = r.working.length := by
  rw [judgeLines_lines, List.length_zipWith, hlength, Nat.min_self]

/-- The places at which two sequences differ, counted in pairs or by their numbers. -/
theorem countP_zip_eq_countP_range {α : Type} [DecidableEq α] {as bs : List α}
    (h : as.length = bs.length) :
    (as.zip bs).countP (fun p => p.1 ≠ p.2) =
      (List.range bs.length).countP fun i => as[i]? ≠ bs[i]? := by
  induction as generalizing bs with
  | nil =>
      obtain rfl := List.length_eq_zero_iff.1 h.symm
      rfl
  | cons a as ih =>
      cases bs with
      | nil => exact absurd h (by simp)
      | cons b bs =>
          have htail := ih (Nat.succ.inj h)
          rw [List.zip_cons_cons, List.countP_cons, htail, List.length_cons,
            List.range_succ_eq_map, List.countP_cons, List.countP_map]
          simp [Function.comp_def]

/-- The count is the number of places at which the line chosen is not the working line. -/
theorem reversions_judgeLines (hlength : r.reference.length = r.working.length) :
    (r.judgeLines profile).reversions =
      (List.range r.working.length).countP
        fun i => (r.judgeLines profile).lines[i]? ≠ r.working[i]? := by
  have hworking : (r.reference.zip r.working).map Prod.snd = r.working :=
    List.map_snd_zip (Nat.le_of_eq hlength.symm)
  have hcount : (r.judgeLines profile).reversions =
      ((r.judgeLines profile).lines.zip r.working).countP fun p => p.1 ≠ p.2 := by
    simp only [judgeLines, hworking]
  rw [hcount, countP_zip_eq_countP_range (length_judgeLines hlength)]

/-- A line chosen that is not the working line is the reference line, and differs from it by
noise only. -/
theorem restored_of_ne (hlength : r.reference.length = r.working.length) {i : Nat}
    (h : (r.judgeLines profile).lines[i]? ≠ r.working[i]?) :
    ∃ a b, r.reference[i]? = some a ∧ r.working[i]? = some b ∧
      (r.judgeLines profile).lines[i]? = some a ∧ signature profile a = signature profile b := by
  rw [judgeLines_lines] at h ⊢
  by_cases hi : i < r.working.length
  · have hreference : r.reference[i]? = some r.reference[i] := List.getElem?_eq_getElem (by omega)
    have hworking : r.working[i]? = some r.working[i] := List.getElem?_eq_getElem hi
    refine ⟨r.reference[i], r.working[i], hreference, hworking, ?_⟩
    rw [List.getElem?_zipWith, hreference, hworking] at h ⊢
    rcases stayingLine_cases profile r.reference[i] r.working[i] with
      ⟨hsame, hline⟩ | ⟨-, hline⟩
    · exact ⟨congrArg some hline, hsame⟩
    · exact absurd (congrArg some hline) h
  · have hworking : r.working[i]? = none := List.getElem?_eq_none (by omega)
    rw [List.getElem?_zipWith, hworking] at h
    cases hreference : r.reference[i]? <;> simp [hreference] at h

/-! ### The text chosen for a region -/

section Align

variable {reference working : Text}

theorem lines_flatten_judge (profile : Option Grammar)
    (hr : r ∈ align reference.lines working.lines) :
    Text.lines (r.judge profile).lines.flatten = Text.fuse (r.judge profile).lines := by
  have hsides := isChain_sides_of_mem_align reference.isChain_terminated_lines
    working.isChain_terminated_lines hr
  apply Text.lines_flatten_eq_fuse
  · intro l hl
    exact isLine_of_mem_chosenLines profile reference working l (List.mem_flatMap.2 ⟨r, hr, hl⟩)
  · exact r.isChain_judge profile hsides.1 hsides.2

theorem lines_flatten_working (hr : r ∈ align reference.lines working.lines) :
    Text.lines r.working.flatten = r.working := by
  have hterminated := (isChain_sides_of_mem_align reference.isChain_terminated_lines
    working.isChain_terminated_lines hr).2
  have hfuses := (isChain_sides_of_mem_align reference.isChain_not_fuses_lines
    working.isChain_not_fuses_lines hr).2
  have hlines : ∀ l ∈ r.working, Text.IsLine l := by
    intro l hl
    exact Text.isLine_of_mem_lines ((aligned_align _ _).mem_working hr hl)
  rw [Text.lines_flatten_eq_fuse hlines hterminated, Text.fuse_eq_self hfuses]

/-- As many lines as the working lines that make the same text are the working lines. -/
theorem eq_working_of_flatten_eq (hr : r ∈ align reference.lines working.lines)
    (hlength : (r.judge profile).lines.length = r.working.length)
    (h : (r.judge profile).lines.flatten = r.working.flatten) :
    (r.judge profile).lines = r.working := by
  have hfuse : Text.fuse (r.judge profile).lines = r.working := by
    rw [← lines_flatten_judge profile hr, h, lines_flatten_working hr]
  have hsame : Text.fuse (r.judge profile).lines = (r.judge profile).lines :=
    Text.fuse_eq_self_of_length (by rw [hfuse, hlength])
  rw [← hsame, hfuse]

/-- Nothing is counted exactly if the text chosen is the working text. -/
theorem reversions_judge_eq_zero_iff_flatten (hr : r ∈ align reference.lines working.lines) :
    (r.judge profile).reversions = 0 ↔
      (r.judge profile).lines.flatten = r.working.flatten := by
  constructor
  · exact flatten_judge_of_reversions_eq_zero (fits_of_mem_align hr).sides_eq
  · intro h
    rcases judge_cases profile r with
      ⟨-, hj⟩ | ⟨-, -, hj⟩ | ⟨-, hlength, -, hj⟩ | ⟨-, -, -, hj⟩
    · rw [hj]
    · rw [hj] at h ⊢
      exact if_pos h
    · have hlines := eq_working_of_flatten_eq hr (by rw [hj, length_judgeLines hlength]) h
      rw [hj] at hlines
      rw [hj, reversions_judgeLines hlength, hlines]
      simp
    · rw [hj]

end Align

/-! ### No more than there are lines -/

theorem reversions_judge_le (profile : Option Grammar) (hfits : r.Fits) :
    (r.judge profile).reversions ≤ r.reference.length + r.working.length := by
  rcases judge_cases profile r with ⟨-, hj⟩ | ⟨-, -, hj⟩ | ⟨-, hlength, -, hj⟩ | ⟨-, -, -, hj⟩
  · rw [hj]
    exact Nat.zero_le _
  · -- One piece is taken back, and there is a line on one of the sides.
    have hone : (r.judge profile).reversions ≤ 1 := by
      rw [hj]
      split <;> simp
    rcases hfits.ne_nil with hne | hne
    · have hpos := List.length_pos_iff.2 hne
      omega
    · have hpos := List.length_pos_iff.2 hne
      omega
  · have hcount : (r.judgeLines profile).reversions ≤ r.working.length := by
      rw [reversions_judgeLines hlength]
      exact List.countP_le_length.trans (by rw [List.length_range])
    rw [hj]
    omega
  · rw [hj]
    exact Nat.zero_le _

end Region

/-- No more is taken back than the two texts have lines. -/
theorem reversions_denoise_le (profile : Option Grammar) (reference working : Text) :
    (denoise profile reference working).reversions ≤
      reference.lines.length + working.lines.length := by
  have hregions : ∀ regions : List Region, (∀ r ∈ regions, r.Fits) →
      (regions.map (Region.judge profile)).foldr (fun v n => v.reversions + n) 0 ≤
        (regions.flatMap Region.reference).length + (regions.flatMap Region.working).length := by
    intro regions hfits
    induction regions with
    | nil => exact Nat.zero_le _
    | cons r regions ih =>
        rw [List.forall_mem_cons] at hfits
        have hfirst := Region.reversions_judge_le profile hfits.1
        have hrest := ih hfits.2
        simp only [List.map_cons, List.foldr_cons, List.flatMap_cons, List.length_append]
        omega
  have hall := hregions (align reference.lines working.lines) fun r hr => fits_of_mem_align hr
  rwa [reference_align, working_align] at hall

/-- **Reversions are counted exactly.** For every region of two texts nothing is counted exactly if
the text chosen is the working text. Where the region is judged line by line, the count is the
number of places at which the line chosen is not the working line, and each of these is the
reference line, with the signature of the working line. So where nothing is counted at all, the
text stays as it is. -/
theorem reversions_exact (profile : Option Grammar) (reference working : Text) :
    (∀ r ∈ align reference.lines working.lines,
      ((r.judge profile).reversions = 0 ↔
        (r.judge profile).lines.flatten = r.working.flatten) ∧
      ∀ sides, (r.judge profile).ruling = .perLine sides →
        (r.judge profile).lines.length = r.working.length ∧
        (r.judge profile).reversions =
          (List.range r.working.length).countP
            (fun i => (r.judge profile).lines[i]? ≠ r.working[i]?) ∧
        ∀ i : Nat, (r.judge profile).lines[i]? ≠ r.working[i]? →
          ∃ a b, r.reference[i]? = some a ∧ r.working[i]? = some b ∧
            (r.judge profile).lines[i]? = some a ∧ signature profile a = signature profile b) ∧
    ((denoise profile reference working).reversions = 0 →
      (denoise profile reference working).content = working) := by
  refine ⟨fun r hr => ⟨Region.reversions_judge_eq_zero_iff_flatten hr, ?_⟩,
    content_of_reversions_eq_zero⟩
  intro sides hruling
  obtain ⟨hj, hlength⟩ := Region.judge_of_perLine hruling
  rw [hj]
  exact ⟨Region.length_judgeLines hlength, Region.reversions_judgeLines hlength,
    fun i hi => Region.restored_of_ne hlength hi⟩

/-- Two lines judged one by one that fuse in the result: the first is restored and the second
stays, so one is counted although the result has fewer lines. -/
theorem reversions_exact_of_fused_lines :
    let r : Region := ⟨.replace, ["a\r".toList, "b\n".toList], ["a\n".toList, "\n".toList]⟩
    r ∈ align (Text.lines "a\rb\n".toList) (Text.lines "a\n\n".toList) ∧
    (r.judge none).ruling = .perLine [.reference, .working] ∧
    (r.judge none).lines.flatten ≠ r.working.flatten ∧ (r.judge none).reversions ≠ 0 ∧
    (r.judge none).reversions =
      (List.range 2).countP fun i => (r.judge none).lines[i]? ≠ r.working[i]? := by
  intro r
  have hregions : align (Text.lines "a\rb\n".toList) (Text.lines "a\n\n".toList) = [r] := by
    have hscript : anchoredScript (Text.lines "a\rb\n".toList) (Text.lines "a\n\n".toList) =
        [.add ["a\n".toList, "\n".toList], .drop ["a\r".toList, "b\n".toList]] := by
      decide +kernel
    rw [align, hscript, show settle _ = _ by cbv]
    decide +kernel
  have hr : r ∈ align (Text.lines "a\rb\n".toList) (Text.lines "a\n\n".toList) := by
    rw [hregions]
    exact List.mem_singleton_self r
  have hruling : (r.judge none).ruling = .perLine [.reference, .working] := by decide +kernel
  have hdiffers : (r.judge none).lines.flatten ≠ r.working.flatten := by decide +kernel
  have hexact := (reversions_exact none "a\rb\n".toList "a\n\n".toList).1 r hr
  exact ⟨hr, hruling, hdiffers, fun hzero => hdiffers (hexact.1.1 hzero), (hexact.2 _ hruling).2.1⟩

/-! ### As many reversions as lines -/

namespace Text

/-- Lines that are all the same, and a last one. -/
def column (n : Nat) (line last : Text) : Text := (List.replicate n line).flatten ++ last

theorem column_succ (n : Nat) (line last : Text) :
    column (n + 1) line last = line ++ column n line last := by
  rw [column, List.replicate_succ, List.flatten_cons, List.append_assoc, column]

theorem lines_column {line last : Text} (hline : line.lines = [line])
    (hend : line.getLast? = some '\n') (hlast : last.lines = [last]) (n : Nat) :
    (column n line last).lines = List.replicate n line ++ [last] := by
  have hisLine : IsLine line := isLine_of_mem_lines (hline ▸ List.mem_singleton_self line)
  induction n with
  | zero => exact hlast
  | succ n ih =>
      have hcut : ¬ Fuses line (column n line last) := by
        intro hfuses
        exact absurd (hend.symm.trans hfuses.1) (by decide)
      rw [column_succ, lines_append hisLine ⟨'\n', hend, rfl⟩ hcut, ih, List.replicate_succ,
        List.cons_append]

theorem signature_column {line last : Text} (hline : signature none line = []) (n : Nat) :
    signature none (column n line last) = signature none last := by
  induction n with
  | zero => rfl
  | succ n ih => rw [column_succ, signature_append (by simp), hline, ih, List.nil_append]

/-- Lines with nothing but a blank, in front of a last one. -/
def blankLines (n : Nat) : Text := column n " \n".toList "a\n".toList

/-- Lines without the blank, in front of another last one. -/
def emptyLines (n : Nat) : Text := column n "\n".toList "b\n".toList

end Text

/-- No line is on both sides, so the two texts are one region. -/
theorem align_emptyLines (n : Nat) :
    align (Text.blankLines n).lines (Text.emptyLines n).lines =
      [⟨.replace, List.replicate n " \n".toList ++ ["a\n".toList],
        List.replicate n "\n".toList ++ ["b\n".toList]⟩] := by
  have hreference : (Text.blankLines n).lines =
      List.replicate n " \n".toList ++ ["a\n".toList] := Text.lines_column rfl rfl rfl n
  have hworking : (Text.emptyLines n).lines =
      List.replicate n "\n".toList ++ ["b\n".toList] := Text.lines_column rfl rfl rfl n
  rw [hreference, hworking]
  refine (tiles_ofScript (covers_align_script _ _)).eq_replace ?_ (by simp) (by simp)
  intro l hl hl'
  simp only [List.mem_append, List.mem_replicate, List.mem_singleton] at hl hl'
  rcases hl with ⟨-, rfl⟩ | rfl
  · exact absurd hl' (by simp)
  · exact absurd hl' (by simp)

/-- All lines but the last are restored, one by one: so a text has as many reversions as it
has lines, but for one. -/
theorem reversions_denoise_emptyLines (n : Nat) :
    (denoise none (Text.blankLines n) (Text.emptyLines n)).reversions = n := by
  rw [denoise, align_emptyLines]
  simp only [List.map_singleton, List.foldr_cons, List.foldr_nil, Nat.add_zero]
  generalize hregion : (⟨.replace, List.replicate n " \n".toList ++ ["a\n".toList],
    List.replicate n "\n".toList ++ ["b\n".toList]⟩ : Region) = r
  have hflatten : ∀ line last : Text,
      (List.replicate n line ++ [last]).flatten = Text.column n line last := by
    intro line last
    simp [Text.column]
  have hdiffer : signature none r.reference.flatten ≠ signature none r.working.flatten := by
    rw [← hregion, hflatten, hflatten, Text.signature_column (by decide),
      Text.signature_column (by decide)]
    decide
  rcases Region.judge_cases none r with ⟨hkind, -⟩ | ⟨-, hsame, -⟩ | ⟨-, -, -, hj⟩ | ⟨-, hpairs, -⟩
  · exact absurd hkind (by simp [← hregion])
  · exact absurd hsame hdiffer
  · have hlast : (["a\n".toList].zip ["b\n".toList]).countP
        (fun p => Region.stayingLine none p.1 p.2 ≠ p.2) = 0 := by decide
    rw [hj, Region.reversions_judgeLines_eq_countP, ← hregion, List.zip_append (by simp),
      List.zip_replicate', List.countP_append, List.countP_replicate, if_pos (by decide), hlast,
      Nat.add_zero]
  · exact absurd (by simp [← hregion]) hpairs

end CleanDiff
