import CleanDiff.Proofs.Coverage
import CleanDiff.Proofs.Neutral
import CleanDiff.Verdict
import Mathlib.Data.List.Permutation

/-!
# What taking noise back does to the meaning of a file

A region is judged by the signatures of its own lines, but a user cares for the
signature of the file. The two agree where lines can be read alone:

* `denoise_keeps_signature`: a file whose lines are all neutral, on both sides, **keeps
  its signature** when its noise is taken back, along whatever script that covers the two
  texts; and a file without a grammar always does.
* `signature_restoredAt`: restoring one region inside a working text keeps the
  signature of the whole when no literal or comment lies across an end of the region,
  and in general exactly if it keeps that of the region widened to where none does.
  A region inside a literal is read as something it is not: `not_signature_restoredAt`
  drops a line of a literal as if it were a comment.

Everything about a verdict is read off `Region.judge_cases`. The alignments of the small texts
are evaluated by `cbv`, which takes the equations of `id` and `Prod.snd` from the library module
imported here.
-/

namespace CleanDiff

namespace Region

/-! ### The verdicts on a region -/

/-- Each of the four ways to judge a region, with what is known when it is taken. -/
theorem judge_cases (profile : Option Grammar) (r : Region) :
    (r.kind = .equal ∧ r.judge profile = ⟨r.reference, 0, .unchanged⟩) ∨
    (r.kind ≠ .equal ∧
      signature profile r.reference.flatten = signature profile r.working.flatten ∧
      r.judge profile =
        ⟨r.reference, if r.reference.flatten = r.working.flatten then 0 else 1,
          .whole .reference⟩) ∨
    (r.kind = .replace ∧ r.reference.length = r.working.length ∧
      signature profile r.reference.flatten ≠ signature profile r.working.flatten ∧
      r.judge profile = r.judgeLines profile) ∨
    (r.kind ≠ .equal ∧ ¬ (r.kind = .replace ∧ r.reference.length = r.working.length) ∧
      signature profile r.reference.flatten ≠ signature profile r.working.flatten ∧
      r.judge profile = ⟨r.working, 0, .whole .working⟩) := by
  by_cases hequal : r.kind = .equal
  · exact Or.inl ⟨hequal, by simp [judge, hequal]⟩
  · by_cases hsame : sameMeaning profile r.reference.flatten r.working.flatten = true
    · exact Or.inr (Or.inl ⟨hequal, sameMeaning_iff.1 hsame, by simp [judge, hequal, hsame]⟩)
    · have hdiffer := fun h => hsame (sameMeaning_iff.2 h)
      by_cases hpairs : r.kind = .replace ∧ r.reference.length = r.working.length
      · exact Or.inr (Or.inr (Or.inl ⟨hpairs.1, hpairs.2, hdiffer, by simp [judge, hsame, hpairs]⟩))
      · refine Or.inr (Or.inr (Or.inr ⟨hequal, hpairs, hdiffer, ?_⟩))
        rw [judge, if_neg hequal, if_neg hsame, if_neg hpairs]

theorem judge_of_equal (profile : Option Grammar) {r : Region} (h : r.kind = .equal) :
    r.judge profile = ⟨r.reference, 0, .unchanged⟩ := by
  rw [judge, if_pos h]

theorem judge_of_noise {profile : Option Grammar} {r : Region} (h : r.kind ≠ .equal)
    (hsame : signature profile r.reference.flatten = signature profile r.working.flatten) :
    r.judge profile =
      ⟨r.reference, if r.reference.flatten = r.working.flatten then 0 else 1,
        .whole .reference⟩ := by
  rw [judge, if_neg h, if_pos (sameMeaning_iff.2 hsame)]

/-- The line that stays of a pair. -/
def stayingLine (profile : Option Grammar) (reference working : Text) : Text :=
  (stayingSide profile reference working).pick reference working

theorem judgeLines_lines (profile : Option Grammar) (r : Region) :
    (r.judgeLines profile).lines = r.reference.zipWith (stayingLine profile) r.working := by
  simp only [judgeLines, List.zip, List.map_zipWith]
  rfl

theorem stayingLine_cases (profile : Option Grammar) (reference working : Text) :
    (signature profile reference = signature profile working ∧
      stayingLine profile reference working = reference) ∨
    (signature profile reference ≠ signature profile working ∧
      stayingLine profile reference working = working) := by
  by_cases hsame : sameMeaning profile reference working = true
  · exact Or.inl ⟨sameMeaning_iff.1 hsame, by simp [stayingLine, stayingSide, hsame, Side.pick]⟩
  · refine Or.inr ⟨fun h => hsame (sameMeaning_iff.2 h), ?_⟩
    simp [stayingLine, stayingSide, hsame, Side.pick]

theorem signature_stayingLine (profile : Option Grammar) (reference working : Text) :
    signature profile (stayingLine profile reference working) = signature profile working := by
  rcases stayingLine_cases profile reference working with ⟨hsame, hline⟩ | ⟨-, hline⟩
  · rw [hline, hsame]
  · rw [hline]

/-- Every line chosen is a line of one of the two sides. -/
theorem mem_sides_of_mem_judge {profile : Option Grammar} {r : Region} {l : Text}
    (h : l ∈ (r.judge profile).lines) : l ∈ r.reference ∨ l ∈ r.working := by
  rcases judge_cases profile r with ⟨-, hj⟩ | ⟨-, -, hj⟩ | ⟨-, -, -, hj⟩ | ⟨-, -, -, hj⟩
  · rw [hj] at h
    exact Or.inl h
  · rw [hj] at h
    exact Or.inl h
  · rw [hj] at h
    obtain ⟨⟨a, b⟩, hpair, hl⟩ := List.mem_map.1 h
    have hl : stayingLine profile a b = l := hl
    rcases stayingLine_cases profile a b with ⟨-, hline⟩ | ⟨-, hline⟩
    · rw [← hl, hline]
      exact Or.inl (List.of_mem_zip hpair).1
    · rw [← hl, hline]
      exact Or.inr (List.of_mem_zip hpair).2
  · rw [hj] at h
    exact Or.inr h

/-! ### One region keeps its signature -/

theorem flatMap_signature_stayingLine (profile : Option Grammar) {reference working : List Text}
    (h : reference.length = working.length) :
    (reference.zipWith (stayingLine profile) working).flatMap (signature profile) =
      working.flatMap (signature profile) := by
  induction reference generalizing working with
  | nil => rw [List.length_eq_zero_iff.1 h.symm]; rfl
  | cons a reference ih =>
      cases working with
      | nil => exact absurd h (by simp)
      | cons b working =>
          rw [List.zipWith_cons_cons, List.flatMap_cons, List.flatMap_cons,
            signature_stayingLine, ih (by simpa using h)]

/-- Whatever the verdict on a region of neutral lines, the lines chosen have together the
signature of its working lines. -/
theorem flatMap_signature_judge {profile : Option Grammar} {r : Region}
    (hsides : r.kind = .equal → r.reference = r.working)
    (hreference : ∀ l ∈ r.reference, ∀ g ∈ profile, g.Neutral l)
    (hworking : ∀ l ∈ r.working, ∀ g ∈ profile, g.Neutral l) :
    (r.judge profile).lines.flatMap (signature profile) =
      r.working.flatMap (signature profile) := by
  rcases judge_cases profile r with
    ⟨hkind, hj⟩ | ⟨-, hsame, hj⟩ | ⟨-, hlength, -, hj⟩ | ⟨-, -, -, hj⟩
  · rw [hj]
    exact congrArg _ (hsides hkind)
  · rw [signature_flatten hreference, signature_flatten hworking] at hsame
    rw [hj]
    exact hsame
  · rw [hj, judgeLines_lines]
    exact flatMap_signature_stayingLine profile hlength
  · rw [hj]

end Region

/-! ### The whole file -/

/-- Take noise back along a script, however it was found. -/
def denoiseAlong (profile : Option Grammar) (script : List (Edit Text)) : Denoised :=
  let verdicts := (Region.ofScript script).map (Region.judge profile)
  { content := (verdicts.flatMap (·.lines)).flatten
    reversions := verdicts.foldr (fun v n => v.reversions + n) 0 }

theorem denoise_eq_denoiseAlong (profile : Option Grammar) (reference working : Text) :
    denoise profile reference working =
      denoiseAlong profile (settle (anchoredScript reference.lines working.lines)) := rfl

/-- The text that the verdicts on some regions choose. -/
def chosenText (profile : Option Grammar) (regions : List Region) : Text :=
  (regions.flatMap fun r => (r.judge profile).lines).flatten

theorem content_denoiseAlong (profile : Option Grammar) (script : List (Edit Text)) :
    (denoiseAlong profile script).content = chosenText profile (Region.ofScript script) := by
  simp only [denoiseAlong, chosenText, List.flatMap_map]

theorem content_denoise (profile : Option Grammar) (reference working : Text) :
    (denoise profile reference working).content =
      chosenText profile (align reference.lines working.lines) := by
  simp only [denoise, chosenText, List.flatMap_map]

/-- However two sequences of neutral lines are aligned, the text that the verdicts choose
has the signature of the working lines. -/
theorem Aligned.signature_chosenText {profile : Option Grammar} {regions : List Region}
    {reference working : List Text} (h : Aligned regions reference working)
    (hreference : ∀ l ∈ reference, ∀ g ∈ profile, g.Neutral l)
    (hworking : ∀ l ∈ working, ∀ g ∈ profile, g.Neutral l) :
    signature profile (chosenText profile regions) = signature profile working.flatten := by
  -- The chosen text mixes lines of both sides, so its lines are neutral too.
  have hchosen : ∀ l ∈ regions.flatMap (fun r => (r.judge profile).lines),
      ∀ g ∈ profile, g.Neutral l := by
    intro l hl
    obtain ⟨r, hr, hl⟩ := List.mem_flatMap.1 hl
    rcases Region.mem_sides_of_mem_judge hl with hside | hside
    · exact hreference l (h.mem_reference hr hside)
    · exact hworking l (h.mem_working hr hside)
  have hregions : ∀ r ∈ regions,
      (r.judge profile).lines.flatMap (signature profile) =
        r.working.flatMap (signature profile) := by
    intro r hr
    apply Region.flatMap_signature_judge (h.sides_eq r hr)
    · exact fun l hl => hreference l (h.mem_reference hr hl)
    · exact fun l hl => hworking l (h.mem_working hr hl)
  calc signature profile (chosenText profile regions)
      = (regions.flatMap fun r => (r.judge profile).lines).flatMap (signature profile) :=
        signature_flatten hchosen
    _ = regions.flatMap fun r => r.working.flatMap (signature profile) := by
        rw [List.flatMap_assoc]
        exact List.flatMap_congr hregions
    _ = working.flatMap (signature profile) := by
        rw [← List.flatMap_assoc, h.working]
    _ = signature profile working.flatten := (signature_flatten hworking).symm

/-- Along whatever script covers two texts of neutral lines, the signature stays. -/
theorem signature_denoiseAlong {profile : Option Grammar} {reference working : Text}
    (hreference : ∀ l ∈ reference.lines, ∀ g ∈ profile, g.Neutral l)
    (hworking : ∀ l ∈ working.lines, ∀ g ∈ profile, g.Neutral l) {script : List (Edit Text)}
    (hscript : Covers script reference.lines working.lines) :
    signature profile (denoiseAlong profile script).content = signature profile working := by
  have haligned := aligned_ofScript hscript
  rw [content_denoiseAlong, haligned.signature_chosenText hreference hworking, Text.flatten_lines]

theorem neutral_of_some {g : Grammar} {lines : List Text} (h : ∀ l ∈ lines, g.Neutral l) :
    ∀ l ∈ lines, ∀ g' ∈ some g, g'.Neutral l := by
  intro l hl g' hg'
  exact Option.some.inj hg' ▸ h l hl

/-- Taking noise back **keeps the signature of the file**: always when the file has no
grammar, and with a grammar when every line of the two texts is neutral for it. It does so
along the script that is found, and along every other one that covers the two texts. -/
theorem denoise_keeps_signature :
    (∀ reference working : Text,
      Text.dropBlanks (denoise none reference working).content = Text.dropBlanks working ∧
      ∀ script : List (Edit Text), Covers script reference.lines working.lines →
        Text.dropBlanks (denoiseAlong none script).content = Text.dropBlanks working) ∧
    ∀ (g : Grammar) (reference working : Text),
      (∀ l ∈ reference.lines, g.Neutral l) → (∀ l ∈ working.lines, g.Neutral l) →
        signature (some g) (denoise (some g) reference working).content =
            signature (some g) working ∧
        ∀ script : List (Edit Text), Covers script reference.lines working.lines →
          signature (some g) (denoiseAlong (some g) script).content =
            signature (some g) working := by
  constructor
  · intro reference working
    have hnone : ∀ t : Text, ∀ l ∈ t.lines, ∀ g ∈ (none : Option Grammar), g.Neutral l := by simp
    have hscript : ∀ script : List (Edit Text), Covers script reference.lines working.lines →
        Text.dropBlanks (denoiseAlong none script).content = Text.dropBlanks working :=
      fun script h => signature_denoiseAlong (hnone reference) (hnone working) h
    exact ⟨hscript _ (covers_align_script _ _), hscript⟩
  · intro g reference working hreference hworking
    have hscript : ∀ script : List (Edit Text), Covers script reference.lines working.lines →
        signature (some g) (denoiseAlong (some g) script).content = signature (some g) working :=
      fun script h => signature_denoiseAlong (neutral_of_some hreference)
        (neutral_of_some hworking) h
    exact ⟨hscript _ (covers_align_script _ _), hscript⟩

/-- A script whose comments come and go and whose last line really changes: the comments
come back, the change stays, and so does the signature; and it stays as well where all old
lines are dropped and all new ones added. -/
theorem denoise_keeps_signature_of_script :
    (∀ l ∈ Text.lines "x = '#'  # one\ny = 2\n".toList, Grammar.hash.Neutral l) ∧
    (∀ l ∈ Text.lines "x = '#'\n# new\ny = 3\n".toList, Grammar.hash.Neutral l) ∧
    signature (some .hash)
        (denoise (some .hash) "x = '#'  # one\ny = 2\n".toList
          "x = '#'\n# new\ny = 3\n".toList).content =
      signature (some .hash) "x = '#'\n# new\ny = 3\n".toList ∧
    signature (some .hash)
        (denoiseAlong (some .hash)
          [.drop (Text.lines "x = '#'  # one\ny = 2\n".toList),
            .add (Text.lines "x = '#'\n# new\ny = 3\n".toList)]).content =
      signature (some .hash) "x = '#'\n# new\ny = 3\n".toList := by
  have hreference : ∀ l ∈ Text.lines "x = '#'  # one\ny = 2\n".toList, Grammar.hash.Neutral l := by
    decide +kernel
  have hworking : ∀ l ∈ Text.lines "x = '#'\n# new\ny = 3\n".toList, Grammar.hash.Neutral l := by
    decide +kernel
  have hkept := denoise_keeps_signature.2 .hash _ _ hreference hworking
  have hcovers : Covers [.drop (Text.lines "x = '#'  # one\ny = 2\n".toList),
      .add (Text.lines "x = '#'\n# new\ny = 3\n".toList)]
      (Text.lines "x = '#'  # one\ny = 2\n".toList)
      (Text.lines "x = '#'\n# new\ny = 3\n".toList) :=
    ⟨by simp [Edit.reference], by simp [Edit.working]⟩
  exact ⟨hreference, hworking, hkept.1, hkept.2 _ hcovers⟩

/-! ### One region inside its file -/

/-- The working text of some regions. -/
def workingText (regions : List Region) : Text := (regions.flatMap Region.working).flatten

/-- The working text with one region restored and everything before and after it left as
it is. -/
def restoredAt (before : List Region) (r : Region) (after : List Region) : Text :=
  workingText before ++ (r.reference.flatten ++ workingText after)

theorem workingText_align (reference working : Text) :
    workingText (align reference.lines working.lines) = working := by
  rw [workingText, working_align, Text.flatten_lines]

/-- No token of a text lies across an end of the part `inner` of it. -/
def StandsAlone (g : Grammar) (before inner after : Text) : Prop :=
  g.CutsAt before (inner ++ after) ∧ g.CutsAt (before ++ inner) after

instance (g : Grammar) (before inner after : Text) : Decidable (StandsAlone g before inner after) :=
  inferInstanceAs (Decidable (_ ∧ _))

theorem signature_of_standsAlone {g : Grammar} {before inner after : Text}
    (h : StandsAlone g before inner after) :
    signature (some g) (before ++ (inner ++ after)) =
      signature (some g) before ++ (signature (some g) inner ++ signature (some g) after) := by
  have hinner := Grammar.CutsAt.inner h.1 h.2
  rw [signature_append (by rintro g' ⟨⟩; exact h.1),
    signature_append (by rintro g' ⟨⟩; exact hinner)]

theorem same_signature_of_restored {profile : Option Grammar} {r : Region}
    (h : (r.judge profile).ruling = .whole .reference) :
    signature profile r.reference.flatten = signature profile r.working.flatten := by
  rcases Region.judge_cases profile r with
    ⟨-, hj⟩ | ⟨-, hsame, -⟩ | ⟨-, -, -, hj⟩ | ⟨-, -, -, hj⟩
  · rw [hj] at h
    exact absurd h (by simp)
  · exact hsame
  · rw [hj] at h
    exact absurd h (by simp [Region.judgeLines])
  · rw [hj] at h
    exact absurd h (by simp)

/-- Between two places where both texts may be cut, the part between them decides whether
two texts have one signature. -/
theorem signature_eq_iff_of_standsAlone {g : Grammar} {before inner inner' after : Text}
    (h : StandsAlone g before inner after) (h' : StandsAlone g before inner' after) :
    signature (some g) (before ++ (inner ++ after)) =
        signature (some g) (before ++ (inner' ++ after)) ↔
      signature (some g) inner = signature (some g) inner' := by
  rw [signature_of_standsAlone h, signature_of_standsAlone h', List.append_cancel_left_eq,
    List.append_cancel_right_eq]

/-- Restoring a region judged to be noise keeps the signature of the file **exactly if it
keeps that of the region widened**, on both sides, to places where the working text and
the restored one may be cut. So it does when the region itself ends at such places,
that is when no literal or comment lies across an end of it in either text. -/
theorem signature_restoredAt {g : Grammar} {reference working : Text}
    {before after : List Region} {r : Region}
    (halign : align reference.lines working.lines = before ++ r :: after)
    (hruling : (r.judge (some g)).ruling = .whole .reference) :
    (∀ u b a v : Text, workingText before = u ++ b → workingText after = a ++ v →
      StandsAlone g u (b ++ (r.working.flatten ++ a)) v →
      StandsAlone g u (b ++ (r.reference.flatten ++ a)) v →
        (signature (some g) (restoredAt before r after) = signature (some g) working ↔
          signature (some g) (b ++ (r.reference.flatten ++ a)) =
            signature (some g) (b ++ (r.working.flatten ++ a)))) ∧
    (StandsAlone g (workingText before) r.working.flatten (workingText after) →
      StandsAlone g (workingText before) r.reference.flatten (workingText after) →
        signature (some g) (restoredAt before r after) = signature (some g) working) := by
  have hfile : working = workingText before ++ (r.working.flatten ++ workingText after) := by
    rw [← workingText_align reference working, halign]
    simp [workingText]
  constructor
  · intro u b a v hbefore hafter hworking hreference
    have hiff := signature_eq_iff_of_standsAlone hreference hworking
    rw [hfile, restoredAt, hbefore, hafter]
    simpa only [List.append_assoc] using hiff
  · intro hworking hreference
    rw [hfile, restoredAt, signature_eq_iff_of_standsAlone hreference hworking]
    exact same_signature_of_restored hruling

/-- A comment comes back behind a literal of several lines that has been closed. -/
theorem signature_restoredAt_of_closed_literal :
    signature (some .hash)
        (restoredAt
          [⟨.equal, ["s = '''\n".toList, "# in\n".toList, "'''\n".toList],
            ["s = '''\n".toList, "# in\n".toList, "'''\n".toList]⟩]
          ⟨.delete, ["# old\n".toList], []⟩ [⟨.equal, ["x\n".toList], ["x\n".toList]⟩]) =
      signature (some .hash) "s = '''\n# in\n'''\nx\n".toList := by
  have halign : align (Text.lines "s = '''\n# in\n'''\n# old\nx\n".toList)
      (Text.lines "s = '''\n# in\n'''\nx\n".toList) =
      [⟨.equal, ["s = '''\n".toList, "# in\n".toList, "'''\n".toList],
        ["s = '''\n".toList, "# in\n".toList, "'''\n".toList]⟩] ++
        ⟨.delete, ["# old\n".toList], []⟩ :: [⟨.equal, ["x\n".toList], ["x\n".toList]⟩] := by
    cbv
  exact (signature_restoredAt halign (by decide +kernel)).2 (by decide +kernel) (by decide +kernel)

/-- A line of a literal that was opened on an earlier line is dropped as if it were a
comment: read alone, it is one. -/
theorem not_signature_restoredAt :
    ¬ ∀ (g : Grammar) (reference working : Text) (before after : List Region) (r : Region),
      align reference.lines working.lines = before ++ r :: after →
      (r.judge (some g)).ruling = .whole .reference →
      signature (some g) (restoredAt before r after) = signature (some g) working := by
  intro h
  have hdropped := h .hash "s = '''\n'''\n".toList "s = '''\n# a\n'''\n".toList
    [⟨.equal, ["s = '''\n".toList], ["s = '''\n".toList]⟩]
    [⟨.equal, ["'''\n".toList], ["'''\n".toList]⟩] ⟨.insert, [], ["# a\n".toList]⟩
    (by cbv) (by decide +kernel)
  exact absurd hdropped (by decide +kernel)

end CleanDiff
