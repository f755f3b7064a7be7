import CleanDiff.Proofs.LineBreak
import CleanDiff.Proofs.Lines
import CleanDiff.Proofs.Meaning

/-!
# Line endings converted and restored

A text in which every `\n` became `\r\n` has no terminated line in common with what it was,
so no script can keep more than the last line, if that one has no terminator. All in front
of it is one region, which differs by noise only: **the conversion is undone as a whole**, in
either direction and along whatever script covers the two texts (`denoise_toCrlf`).

* `exists_shared_end`: two texts that share no terminated line are judged as one region, but
  for an end without line breaks that both may have.
* `Reflowed.signature_eq`, from the theory of line breaks, says that this region is noise.
-/

namespace CleanDiff

/-! ### Texts that share no terminated line -/

namespace Region

/-- Behind a line without a terminator comes nothing, so an equal region of such lines is
the last one. -/
theorem isChain_changed {regions : List Region} (hfits : ∀ r ∈ regions, r.Fits)
    (hreference : (regions.flatMap reference).IsChain fun a _ => Text.Terminated a)
    (hworking : (regions.flatMap working).IsChain fun a _ => Text.Terminated a)
    (hequal : ∀ r ∈ regions, r.kind = .equal → ∀ l ∈ r.reference, ¬ Text.Terminated l) :
    regions.IsChain fun r _ => r.kind ≠ .equal := by
  induction regions with
  | nil => exact .nil
  | cons r rest ih =>
      rw [List.forall_mem_cons] at hfits hequal
      rw [List.flatMap_cons, List.isChain_append] at hreference hworking
      refine List.isChain_cons.2 ⟨?_, ih hfits.2 hreference.2.1 hworking.2.1 hequal.2⟩
      intro s hs hkind
      obtain ⟨rest, rfl⟩ := List.head?_eq_some_iff.1 hs
      have hlast := List.getLast?_eq_some_getLast (hfits.1.reference_ne_nil hkind)
      have hopen := hequal.1 hkind _ (List.mem_of_getLast? hlast)
      rw [List.flatMap_cons] at hreference hworking
      rcases (hfits.2 s List.mem_cons_self).ne_nil with hne | hne
      · obtain ⟨l, ls, hl⟩ := List.exists_cons_of_ne_nil hne
        exact hopen (hreference.2.2 _ hlast l (by simp [hl]))
      · obtain ⟨l, ls, hl⟩ := List.exists_cons_of_ne_nil hne
        rw [← hfits.1.sides_eq hkind] at hworking
        exact hopen (hworking.2.2 _ hlast l (by simp [hl]))

/-- Regions of which only the last can be equal, and no two changed ones meet: there are at
most two. -/
theorem Alternates.cases_of_changed {regions : List Region} (h : Alternates regions)
    (hchanged : regions.IsChain fun r _ => r.kind ≠ .equal) :
    regions = [] ∨ (∃ r, regions = [r]) ∨
      ∃ r s, regions = [r, s] ∧ r.kind ≠ .equal ∧ s.kind = .equal := by
  match regions with
  | [] => exact Or.inl rfl
  | [r] => exact Or.inr (Or.inl ⟨r, rfl⟩)
  | [r, s] =>
      have hr := (List.isChain_cons_cons.1 hchanged).1
      exact Or.inr (Or.inr ⟨r, s, rfl, hr, h.next_equal hr⟩)
  | r :: s :: u :: rest =>
      have hr := (List.isChain_cons_cons.1 hchanged).1
      have hs := (List.isChain_cons_cons.1 hchanged.tail).1
      exact absurd (h.next_equal hr) hs

end Region

/-- The lines of an equal region are lines of both texts. -/
theorem Aligned.unbroken_of_equal {regions : List Region} {reference working : Text}
    (h : Aligned regions reference.lines working.lines)
    (hshared : ∀ l ∈ reference.lines, l ∈ working.lines → ¬ Text.Terminated l) {r : Region}
    (hr : r ∈ regions) (hkind : r.kind = .equal) {l : Text} (hl : l ∈ r.reference) :
    Text.Unbroken l := by
  have hreference := h.mem_reference hr hl
  have hworking := h.mem_working hr (h.sides_eq r hr hkind ▸ hl)
  exact (Text.isLine_of_mem_lines hreference).unbroken_of_not_terminated
    (hshared l hreference hworking)

/-- Two texts that share no terminated line, along any script that covers them: behind their
beginnings they may have one and the same end without line breaks. If the beginnings differ
by noise only, the whole reference text comes back, in one piece. -/
theorem exists_shared_end (profile : Option Grammar) {reference working : Text}
    (hshared : ∀ l ∈ reference.lines, l ∈ working.lines → ¬ Text.Terminated l)
    {script : List (Edit Text)} (hscript : Covers script reference.lines working.lines) :
    ∃ front front' rest, reference = front ++ rest ∧ working = front' ++ rest ∧
      Text.Unbroken rest ∧
      (signature profile front = signature profile front' →
        denoiseAlong profile script = ⟨reference, if front = front' then 0 else 1⟩) := by
  have haligned := aligned_ofScript hscript
  have hfits := Region.fits_ofScript script
  have hopen := fun r hr hkind l => @haligned.unbroken_of_equal _ _ _ hshared r hr hkind l
  have hchanged : (Region.ofScript script).IsChain fun r _ => r.kind ≠ .equal := by
    apply Region.isChain_changed hfits
    · rw [haligned.reference]
      exact reference.isChain_terminated_lines
    · rw [haligned.working]
      exact working.isChain_terminated_lines
    · intro r hr hkind l hl
      exact Text.not_terminated_of_unbroken (hopen r hr hkind l hl)
  have hunbroken : ∀ r ∈ Region.ofScript script, r.kind = .equal →
      Text.Unbroken r.reference.flatten := by
    intro r hr hkind c hc
    obtain ⟨l, hl, hc⟩ := List.mem_flatten.1 hc
    exact hopen r hr hkind l hl c hc
  rw [← reference.flatten_lines, ← working.flatten_lines, ← haligned.reference,
    ← haligned.working, denoiseAlong]
  rcases (Region.alternates_ofScript script).cases_of_changed hchanged with
    hnil | ⟨r, hone⟩ | ⟨r, s, htwo, hr, hs⟩
  · rw [hnil]
    exact ⟨[], [], [], rfl, rfl, by simp [Text.Unbroken], fun _ => rfl⟩
  · rw [hone] at hfits hunbroken ⊢
    by_cases hkind : r.kind = .equal
    · refine ⟨[], [], r.reference.flatten, by simp, ?_, hunbroken r (by simp) hkind, ?_⟩
      · simp [(hfits r (by simp)).sides_eq hkind]
      · simp [Region.judge_of_equal profile hkind]
    · refine ⟨r.reference.flatten, r.working.flatten, [], by simp, by simp,
        by simp [Text.Unbroken], ?_⟩
      intro hsame
      simp [Region.judge_of_noise hkind hsame]
  · rw [htwo] at hfits hunbroken ⊢
    refine ⟨r.reference.flatten, r.working.flatten, s.reference.flatten, by simp, ?_,
      hunbroken s (by simp) hs, ?_⟩
    · simp [(hfits s (by simp)).sides_eq hs]
    · intro hsame
      simp [Region.judge_of_noise hr hsame, Region.judge_of_equal profile hs]

/-! ### Converted texts -/

namespace Text

/-- The text with every `\n` written as `\r\n`. -/
def toCrlf (t : Text) : Text := t.flatMap fun c => if c = '\n' then ['\r', '\n'] else [c]

@[simp] theorem toCrlf_nil : toCrlf [] = [] := rfl

theorem toCrlf_lf (t : Text) : toCrlf ('\n' :: t) = '\r' :: '\n' :: toCrlf t := rfl

theorem toCrlf_other {c : Char} (h : c ≠ '\n') (t : Text) : toCrlf (c :: t) = c :: toCrlf t := by
  simp [toCrlf, h]

theorem toCrlf_append (s t : Text) : toCrlf (s ++ t) = toCrlf s ++ toCrlf t :=
  List.flatMap_append

theorem toCrlf_of_not_mem {t : Text} (h : '\n' ∉ t) : toCrlf t = t := by
  induction t with
  | nil => rfl
  | cons c t ih =>
      rw [List.mem_cons, not_or] at h
      rw [toCrlf_other (Ne.symm h.1), ih h.2]

theorem cr_mem_toCrlf {t : Text} (h : '\n' ∈ toCrlf t) : '\r' ∈ toCrlf t := by
  obtain ⟨c, hc, hmem⟩ := List.mem_flatMap.1 h
  by_cases hlf : c = '\n'
  · subst hlf
    exact List.mem_flatMap.2 ⟨'\n', hc, by simp⟩
  · simp [hlf] at hmem
    exact absurd hmem.symm hlf

theorem gap_crlf : Gap ['\r', '\n'] :=
  ⟨List.forall_mem_cons.2 ⟨by decide, gap_lf.blank⟩, by simp⟩

theorem reflowed_toCrlf (t : Text) : Reflowed t (toCrlf t) := by
  induction t with
  | nil => exact .nil
  | cons c t ih =>
      by_cases hc : c = '\n'
      · subst hc
        exact .gap gap_lf gap_crlf ih
      · rw [toCrlf_other hc]
        exact .cons c ih

/-- The lines of the converted text are the lines, converted. -/
theorem lines_toCrlf {t : Text} (h : '\r' ∉ t) : lines (toCrlf t) = (lines t).map toCrlf := by
  induction t with
  | nil => rfl
  | cons c t ih =>
      rw [List.mem_cons, not_or] at h
      have ih := ih h.2
      by_cases hc : c = '\n'
      · subst hc
        rw [toCrlf_lf, lines_crlf, lines_lf, ih]
        rfl
      · have hbreak : isBreak c = false := by simp [isBreak, hc, Ne.symm h.1]
        rw [toCrlf_other hc]
        cases hlines : lines t with
        | nil =>
            have ht : t = [] := by rw [← flatten_lines t, hlines, List.flatten_nil]
            subst ht
            rw [toCrlf_nil, lines_unbroken (by simpa [Unbroken] using hbreak) (by simp)]
            simp [toCrlf_other hc]
        | cons l ls =>
            rw [hlines, List.map_cons] at ih
            rw [lines_cons hbreak hlines, lines_cons hbreak ih, List.map_cons, toCrlf_other hc]

/-- A text without `\r` and its conversion share no terminated line. -/
theorem not_terminated_of_mem_toCrlf {t l : Text} (h : '\r' ∉ t) (hl : l ∈ lines t)
    (hl' : l ∈ lines (toCrlf t)) : ¬ Terminated l := by
  rintro ⟨c, hc, hbreak⟩
  have hcr : '\r' ∉ l := by
    intro hmem
    rw [← flatten_lines t] at h
    exact h (List.mem_flatten.2 ⟨l, hl, hmem⟩)
  have hmem := List.mem_of_getLast? hc
  rw [lines_toCrlf h] at hl'
  obtain ⟨l₀, -, rfl⟩ := List.mem_map.1 hl'
  rw [isBreak, Bool.or_eq_true, decide_eq_true_iff, decide_eq_true_iff] at hbreak
  rcases hbreak with rfl | rfl
  · exact hcr (cr_mem_toCrlf hmem)
  · exact hcr hmem

/-- In front of an end without line breaks a converted text is converted. -/
theorem eq_toCrlf_of_append {t t' rest : Text} (hrest : Unbroken rest)
    (h : toCrlf (t ++ rest) = t' ++ rest) : t' = toCrlf t := by
  have hlf : '\n' ∉ rest := fun hmem => absurd (hrest _ hmem) (by decide)
  rw [toCrlf_append, toCrlf_of_not_mem hlf] at h
  exact (List.append_cancel_right h).symm

theorem eq_toCrlf_iff {t : Text} (h : '\r' ∉ t) : t = toCrlf t ↔ '\n' ∉ t := by
  constructor
  · intro heq hlf
    rw [heq] at h hlf
    exact h (cr_mem_toCrlf hlf)
  · intro hlf
    exact (toCrlf_of_not_mem hlf).symm

end Text

/-! ### The conversion is undone -/

/-- Converting a text changes its beginning exactly if it has a line break. -/
theorem reversions_toCrlf {front rest : Text} (hcr : '\r' ∉ front ++ rest)
    (hrest : Text.Unbroken rest) :
    (if front = front.toCrlf then 0 else 1) = if '\n' ∈ front ++ rest then 1 else 0 := by
  have hlf : '\n' ∉ rest := fun hmem => absurd (hrest _ hmem) (by decide)
  have hfront : '\r' ∉ front := fun hmem => hcr (List.mem_append_left _ hmem)
  simp only [Text.eq_toCrlf_iff hfront, List.mem_append, hlf, or_false]
  by_cases hbroken : '\n' ∈ front
  · rw [if_neg (not_not_intro hbroken), if_pos hbroken]
  · rw [if_pos hbroken, if_neg hbroken]

theorem denoiseAlong_toCrlf (profile : Option Grammar) {t : Text} (h : '\r' ∉ t)
    {script : List (Edit Text)} (hscript : Covers script t.lines t.toCrlf.lines) :
    denoiseAlong profile script = ⟨t, if '\n' ∈ t then 1 else 0⟩ := by
  obtain ⟨front, front', rest, rfl, hworking, hrest, hdenoise⟩ :=
    exists_shared_end profile (fun l hl hl' => Text.not_terminated_of_mem_toCrlf h hl hl') hscript
  obtain rfl := Text.eq_toCrlf_of_append hrest hworking
  rw [hdenoise (front.reflowed_toCrlf.signature_eq profile), reversions_toCrlf h hrest]

theorem denoiseAlong_of_toCrlf (profile : Option Grammar) {t : Text} (h : '\r' ∉ t)
    {script : List (Edit Text)} (hscript : Covers script t.toCrlf.lines t.lines) :
    denoiseAlong profile script = ⟨t.toCrlf, if '\n' ∈ t then 1 else 0⟩ := by
  obtain ⟨front', front, rest, hreference, rfl, hrest, hdenoise⟩ :=
    exists_shared_end profile (fun l hl' hl => Text.not_terminated_of_mem_toCrlf h hl hl') hscript
  obtain rfl := Text.eq_toCrlf_of_append hrest hreference
  rw [hdenoise (front.reflowed_toCrlf.signature_eq profile).symm, ← reversions_toCrlf h hrest]
  simp only [@eq_comm _ front.toCrlf front]

/-- **A line ending conversion is undone as a whole.** A text without `\r` comes back from
its conversion, and the conversion from the text, along every script that covers the two:
as one reversion, or none when there was no line to convert. -/
theorem denoise_toCrlf (profile : Option Grammar) {t : Text} (h : '\r' ∉ t) :
    denoise profile t t.toCrlf = ⟨t, if '\n' ∈ t then 1 else 0⟩ ∧
    denoise profile t.toCrlf t = ⟨t.toCrlf, if '\n' ∈ t then 1 else 0⟩ ∧
    ∀ script : List (Edit Text),
      (Covers script t.lines t.toCrlf.lines →
        denoiseAlong profile script = ⟨t, if '\n' ∈ t then 1 else 0⟩) ∧
      (Covers script t.toCrlf.lines t.lines →
        denoiseAlong profile script = ⟨t.toCrlf, if '\n' ∈ t then 1 else 0⟩) := by
  refine ⟨?_, ?_, ?_⟩
  · rw [denoise_eq_denoiseAlong]
    exact denoiseAlong_toCrlf profile h (covers_align_script _ _)
  · rw [denoise_eq_denoiseAlong]
    exact denoiseAlong_of_toCrlf profile h (covers_align_script _ _)
  · intro script
    exact ⟨denoiseAlong_toCrlf profile h, denoiseAlong_of_toCrlf profile h⟩

/-- A literal that goes on behind an escaped line break, a comment that ends at a line break
and a last line without one. -/
theorem denoise_toCrlf_of_escaped_break :
    '\r' ∉ "s = 'a\\\nb'  # c\nend".toList ∧
    denoise (some .hash) "s = 'a\\\nb'  # c\nend".toList
        "s = 'a\\\r\nb'  # c\r\nend".toList =
      ⟨"s = 'a\\\nb'  # c\nend".toList, 1⟩ ∧
    denoise (some .hash) "s = 'a\\\r\nb'  # c\r\nend".toList
        "s = 'a\\\nb'  # c\nend".toList =
      ⟨"s = 'a\\\r\nb'  # c\r\nend".toList, 1⟩ := by
  have hcr : '\r' ∉ "s = 'a\\\nb'  # c\nend".toList := by decide
  have hconverted : Text.toCrlf "s = 'a\\\nb'  # c\nend".toList =
      "s = 'a\\\r\nb'  # c\r\nend".toList := by decide
  have hundone := denoise_toCrlf (some .hash) hcr
  rw [if_pos (by decide), hconverted] at hundone
  exact ⟨hcr, hundone.1, hundone.2.1⟩

end CleanDiff
