import CleanDiff.Proofs.Lines
import CleanDiff.Proofs.Meaning
import Mathlib.Algebra.GroupWithZero.Nat
import Mathlib.Algebra.Order.BigOperators.Group.List
import Mathlib.Algebra.Order.Group.Nat

/-!
# Which lines the result has

The lines that the verdicts choose come from two texts, and a line's extent depends on its
neighbour, so the text they make need not have exactly these lines. What can go wrong is
said here in full: **the lines of the result are the lines chosen, except that a line that
ends with a lone `\r` and a line `\n` from the other text become one where they meet**
(`lines_denoise`), and this happens inside regions judged line by line only. A line without
a terminator always ends the result.

The reason is `isChain_chosenLines_iff`: wherever two regions meet, the two lines that are
neighbours in the result are neighbours in one of the two texts, because one of the regions
is equal. So whatever holds of neighbours in both texts holds of neighbours in the result,
if it does inside each region. `not_lines_denoise` shows two lines fusing inside one.
-/

namespace CleanDiff

namespace Region

/-! ### The lines chosen for one region -/

/-- Lines chosen for a region: they begin and end as one of its sides does, there are some
unless a side is empty, and an equal region stays as it is. -/
structure Chosen (r : Region) (ls : List Text) : Prop where
  first : ∀ l ∈ ls.head?, l ∈ r.reference.head? ∨ l ∈ r.working.head?
  last : ∀ l ∈ ls.getLast?, l ∈ r.reference.getLast? ∨ l ∈ r.working.getLast?
  empty : ls = [] → r.reference = [] ∨ r.working = []
  equal : r.kind = .equal → ls = r.reference

theorem chosen_reference (r : Region) : r.Chosen r.reference :=
  ⟨fun _ h => Or.inl h, fun _ h => Or.inl h, Or.inl, fun _ => rfl⟩

theorem chosen_working {r : Region} (h : r.kind ≠ .equal) : r.Chosen r.working :=
  ⟨fun _ h => Or.inr h, fun _ h => Or.inr h, Or.inr, fun hkind => absurd hkind h⟩

theorem stayingLine_eq_or (profile : Option Grammar) (reference working : Text) :
    stayingLine profile reference working = reference ∨
      stayingLine profile reference working = working := by
  rcases stayingLine_cases profile reference working with ⟨-, hline⟩ | ⟨-, hline⟩
  · exact Or.inl hline
  · exact Or.inr hline

theorem head?_zipWith_stayingLine {profile : Option Grammar} {reference working : List Text}
    {l : Text} (h : l ∈ (reference.zipWith (stayingLine profile) working).head?) :
    l ∈ reference.head? ∨ l ∈ working.head? := by
  cases reference with
  | nil => exact absurd h (by simp)
  | cons a reference =>
      cases working with
      | nil => exact absurd h (by simp)
      | cons b working =>
          obtain rfl : stayingLine profile a b = l := Option.some.inj h
          rcases stayingLine_eq_or profile a b with hline | hline
          · exact Or.inl (congrArg some hline.symm)
          · exact Or.inr (congrArg some hline.symm)

theorem chosen_judgeLines (profile : Option Grammar) {r : Region} (hkind : r.kind ≠ .equal)
    (hlength : r.reference.length = r.working.length) :
    r.Chosen (r.judgeLines profile).lines := by
  rw [judgeLines_lines]
  refine ⟨fun _ => head?_zipWith_stayingLine, ?_, List.zipWith_eq_nil_iff.1,
    fun h => absurd h hkind⟩
  intro l hl
  -- The last pair is the first one from behind.
  rw [← List.head?_reverse, List.reverse_zipWith hlength] at hl
  rw [← List.head?_reverse, ← List.head?_reverse]
  exact head?_zipWith_stayingLine hl

theorem chosen_judge (profile : Option Grammar) (r : Region) :
    r.Chosen (r.judge profile).lines := by
  rcases judge_cases profile r with
    ⟨-, hj⟩ | ⟨-, -, hj⟩ | ⟨hkind, hlength, -, hj⟩ | ⟨hkind, -, -, hj⟩
  · rw [hj]
    exact r.chosen_reference
  · rw [hj]
    exact r.chosen_reference
  · rw [hj]
    exact chosen_judgeLines profile (by simp [hkind]) hlength
  · rw [hj]
    exact chosen_working hkind

end Region

/-! ### Neighbours in the result -/

section Neighbours

variable {X : Text → Text → Prop} {choice : Region → List Text} {regions : List Region}

/-- Where an equal region comes first, all three sequences of lines begin alike. -/
theorem head?_of_equal {r : Region} (hchosen : r.Chosen (choice r)) (hfits : r.Fits)
    (hkind : r.kind = .equal) {l : Text} (hl : l ∈ ((r :: regions).flatMap choice).head?) :
    l ∈ ((r :: regions).flatMap Region.reference).head? ∧
      l ∈ ((r :: regions).flatMap Region.working).head? := by
  have hsides := hfits.sides_eq hkind
  obtain ⟨a, rest, hreference⟩ := List.exists_cons_of_ne_nil (hfits.reference_ne_nil hkind)
  rw [List.flatMap_cons, hchosen.equal hkind, hreference] at hl
  rw [List.flatMap_cons, List.flatMap_cons, ← hsides, hreference]
  exact ⟨hl, hl⟩

/-- The first line chosen is the first line of one of the two texts. -/
theorem head?_flatMap_choice (hchosen : ∀ r ∈ regions, r.Chosen (choice r))
    (hfits : ∀ r ∈ regions, r.Fits) (halternates : Region.Alternates regions) {l : Text}
    (hl : l ∈ (regions.flatMap choice).head?) :
    l ∈ (regions.flatMap Region.reference).head? ∨ l ∈ (regions.flatMap Region.working).head? := by
  cases regions with
  | nil => exact absurd hl (by simp)
  | cons r rest =>
      rw [List.forall_mem_cons] at hchosen hfits
      by_cases hempty : choice r = []
      · -- Nothing is chosen only of a changed region with an empty side, and behind it
        -- stands an equal region, where all three begin alike.
        have hkind : r.kind ≠ .equal := by
          intro hkind
          rw [hchosen.1.equal hkind] at hempty
          exact hfits.1.reference_ne_nil hkind hempty
        rw [List.flatMap_cons, hempty, List.nil_append] at hl
        cases rest with
        | nil => exact absurd hl (by simp)
        | cons s rest =>
            have hboth := head?_of_equal (hchosen.2 s List.mem_cons_self)
              (hfits.2 s List.mem_cons_self) (halternates.next_equal hkind) hl
            rcases hchosen.1.empty hempty with hside | hside
            · exact Or.inl (by rw [List.flatMap_cons, hside, List.nil_append]; exact hboth.1)
            · exact Or.inr (by rw [List.flatMap_cons, hside, List.nil_append]; exact hboth.2)
      · have hfirst : l ∈ (choice r).head? := by
          obtain ⟨a, ls, hchoice⟩ := List.exists_cons_of_ne_nil hempty
          rw [List.flatMap_cons, hchoice] at hl
          rw [hchoice]
          exact hl
        rcases hchosen.1.first l hfirst with hside | hside
        · exact Or.inl (List.mem_head?_append_of_mem_head? hside)
        · exact Or.inr (List.mem_head?_append_of_mem_head? hside)

/-- What holds of neighbours in both texts and of neighbours inside each region holds of
neighbours in the result: where two regions meet, one of them is equal, so the two lines
that meet are neighbours in one of the texts. -/
theorem isChain_flatMap_choice (hchosen : ∀ r ∈ regions, r.Chosen (choice r))
    (hfits : ∀ r ∈ regions, r.Fits) (halternates : Region.Alternates regions)
    (hreference : (regions.flatMap Region.reference).IsChain X)
    (hworking : (regions.flatMap Region.working).IsChain X)
    (hinside : ∀ r ∈ regions, (choice r).IsChain X) : (regions.flatMap choice).IsChain X := by
  induction regions with
  | nil => exact .nil
  | cons r rest ih =>
      rw [List.forall_mem_cons] at hchosen hfits hinside
      rw [List.flatMap_cons, List.isChain_append] at hreference hworking
      rw [List.flatMap_cons, List.isChain_append]
      have halternates' : Region.Alternates rest := List.IsChain.tail halternates
      have hrest : (rest.flatMap choice).IsChain X :=
        ih hchosen.2 hfits.2 halternates' hreference.2.1 hworking.2.1 hinside.2
      refine ⟨hinside.1, hrest, ?_⟩
      intro a ha b hb
      by_cases hkind : r.kind = .equal
      · rw [hchosen.1.equal hkind] at ha
        rcases head?_flatMap_choice hchosen.2 hfits.2 halternates' hb with hside | hside
        · exact hreference.2.2 a ha b hside
        · rw [hfits.1.sides_eq hkind] at ha
          exact hworking.2.2 a ha b hside
      · cases rest with
        | nil => exact absurd hb (by simp)
        | cons s rest =>
            have hboth := head?_of_equal (hchosen.2 s List.mem_cons_self)
              (hfits.2 s List.mem_cons_self) (halternates.next_equal hkind) hb
            rcases hchosen.1.last a ha with hside | hside
            · exact hreference.2.2 a hside b hboth.1
            · exact hworking.2.2 a hside b hboth.2

end Neighbours

/-! ### The lines of the result -/

/-- The lines that the verdicts on some regions choose. -/
def chosenLines (profile : Option Grammar) (regions : List Region) : List Text :=
  regions.flatMap fun r => (r.judge profile).lines

theorem isChain_of_mem {X : Text → Text → Prop} {f : Region → List Text} {regions : List Region}
    (h : (regions.flatMap f).IsChain X) {r : Region} (hr : r ∈ regions) : (f r).IsChain X := by
  obtain ⟨before, after, rfl⟩ := List.append_of_mem hr
  rw [List.flatMap_append, List.flatMap_cons] at h
  exact h.infix ⟨_, _, List.append_assoc ..⟩

variable {reference working : List Text}

/-- Neighbours on a side of a region are neighbours in their text. -/
theorem isChain_sides_of_mem_align {X : Text → Text → Prop} (hreference : reference.IsChain X)
    (hworking : working.IsChain X) {r : Region} (hr : r ∈ align reference working) :
    r.reference.IsChain X ∧ r.working.IsChain X := by
  rw [← reference_align reference working] at hreference
  rw [← working_align reference working] at hworking
  exact ⟨isChain_of_mem hreference hr, isChain_of_mem hworking hr⟩

/-- Whatever holds of neighbours in both texts holds of neighbours in the result exactly if
it does inside each region. -/
theorem isChain_chosenLines_iff (profile : Option Grammar) {X : Text → Text → Prop}
    (hreference : reference.IsChain X) (hworking : working.IsChain X) :
    (chosenLines profile (align reference working)).IsChain X ↔
      ∀ r ∈ align reference working, (r.judge profile).lines.IsChain X := by
  constructor
  · intro h r hr
    exact isChain_of_mem h hr
  · intro h
    apply isChain_flatMap_choice (fun r _ => r.chosen_judge profile) (fun r => fits_of_mem_align)
      (alternates_align reference working)
    · rwa [reference_align]
    · rwa [working_align]
    · exact h

namespace Region

/-- No two of the lines chosen for the region fuse. -/
def Seamless (profile : Option Grammar) (r : Region) : Prop :=
  (r.judge profile).lines.IsChain fun a b => ¬ Text.Fuses a b

instance (profile : Option Grammar) (r : Region) : Decidable (r.Seamless profile) :=
  inferInstanceAs (Decidable (List.IsChain _ _))

/-- Where a side stays as a whole, neighbours are neighbours of that side. -/
theorem isChain_judge_or_perLine (profile : Option Grammar) {r : Region} {X : Text → Text → Prop}
    (hreference : r.reference.IsChain X) (hworking : r.working.IsChain X) :
    (r.judge profile).lines.IsChain X ∨ ∃ sides, (r.judge profile).ruling = .perLine sides := by
  rcases judge_cases profile r with ⟨-, hj⟩ | ⟨-, -, hj⟩ | ⟨-, -, -, hj⟩ | ⟨-, -, -, hj⟩
  · rw [hj]
    exact Or.inl hreference
  · rw [hj]
    exact Or.inl hreference
  · rw [hj]
    exact Or.inr ⟨_, rfl⟩
  · rw [hj]
    exact Or.inl hworking

theorem isChain_zipWith_stayingLine (profile : Option Grammar) {p : Text → Prop}
    {reference working : List Text} (hreference : reference.IsChain fun a _ => p a)
    (hworking : working.IsChain fun a _ => p a) :
    (reference.zipWith (stayingLine profile) working).IsChain fun a _ => p a := by
  induction reference generalizing working with
  | nil => exact .nil
  | cons a reference ih =>
      cases working with
      | nil => exact .nil
      | cons b working =>
          rw [List.isChain_cons] at hreference hworking
          refine List.isChain_cons.2 ⟨?_, ih hreference.2 hworking.2⟩
          -- A pair that is not the last one has a line behind it on either side.
          intro next hnext
          have hpair := List.ne_nil_of_mem (List.mem_of_head? hnext)
          rw [Ne, List.zipWith_eq_nil_iff, not_or] at hpair
          obtain ⟨c, reference', rfl⟩ := List.exists_cons_of_ne_nil hpair.1
          obtain ⟨d, working', rfl⟩ := List.exists_cons_of_ne_nil hpair.2
          rcases stayingLine_eq_or profile a b with hline | hline
          · rw [hline]
            exact hreference.1 c rfl
          · rw [hline]
            exact hworking.1 d rfl

/-- All lines chosen for a region but the last are lines that another follows in their text. -/
theorem isChain_judge (profile : Option Grammar) {r : Region} {p : Text → Prop}
    (hreference : r.reference.IsChain fun a _ => p a)
    (hworking : r.working.IsChain fun a _ => p a) :
    (r.judge profile).lines.IsChain fun a _ => p a := by
  rcases judge_cases profile r with ⟨-, hj⟩ | ⟨-, -, hj⟩ | ⟨-, -, -, hj⟩ | ⟨-, -, -, hj⟩
  · rw [hj]
    exact hreference
  · rw [hj]
    exact hreference
  · rw [hj, judgeLines_lines]
    exact isChain_zipWith_stayingLine profile hreference hworking
  · rw [hj]
    exact hworking

theorem length_judge (profile : Option Grammar) (r : Region) :
    min r.reference.length r.working.length ≤ (r.judge profile).lines.length ∧
      (r.judge profile).lines.length ≤ max r.reference.length r.working.length := by
  rcases judge_cases profile r with ⟨-, hj⟩ | ⟨-, -, hj⟩ | ⟨-, -, -, hj⟩ | ⟨-, -, -, hj⟩
  · rw [hj]
    exact ⟨Nat.min_le_left .., Nat.le_max_left ..⟩
  · rw [hj]
    exact ⟨Nat.min_le_left .., Nat.le_max_left ..⟩
  · rw [hj, judgeLines_lines, List.length_zipWith]
    omega
  · rw [hj]
    exact ⟨Nat.min_le_right .., Nat.le_max_right ..⟩

end Region

theorem length_chosenLines (profile : Option Grammar) (regions : List Region) :
    (regions.map fun r => min r.reference.length r.working.length).sum ≤
        (chosenLines profile regions).length ∧
      (chosenLines profile regions).length ≤
        (regions.map fun r => max r.reference.length r.working.length).sum := by
  rw [chosenLines, List.length_flatMap]
  exact ⟨List.sum_le_sum fun r _ => (r.length_judge profile).1,
    List.sum_le_sum fun r _ => (r.length_judge profile).2⟩

section Result

variable (profile : Option Grammar) (reference working : Text)

/-- Of the lines chosen, only the last one can lack a terminator. -/
theorem isChain_terminated_chosenLines :
    (chosenLines profile (align reference.lines working.lines)).IsChain
      fun a _ => Text.Terminated a := by
  have hreference := reference.isChain_terminated_lines
  have hworking := working.isChain_terminated_lines
  rw [isChain_chosenLines_iff profile hreference hworking]
  intro r hr
  have hsides := isChain_sides_of_mem_align hreference hworking hr
  exact r.isChain_judge profile hsides.1 hsides.2

theorem isLine_of_mem_chosenLines :
    ∀ l ∈ chosenLines profile (align reference.lines working.lines), Text.IsLine l := by
  intro l hl
  have haligned := aligned_align reference.lines working.lines
  obtain ⟨r, hr, hl⟩ := List.mem_flatMap.1 hl
  rcases Region.mem_sides_of_mem_judge hl with hside | hside
  · exact Text.isLine_of_mem_lines (haligned.mem_reference hr hside)
  · exact Text.isLine_of_mem_lines (haligned.mem_working hr hside)

theorem lines_content_eq_fuse :
    Text.lines (denoise profile reference working).content =
      Text.fuse (chosenLines profile (align reference.lines working.lines)) := by
  rw [content_denoise]
  exact Text.lines_flatten_eq_fuse (isLine_of_mem_chosenLines profile reference working)
    (isChain_terminated_chosenLines profile reference working)

/-- The lines of the result are the lines chosen exactly if none of these fuse. -/
theorem lines_content_eq_iff :
    Text.lines (denoise profile reference working).content =
        chosenLines profile (align reference.lines working.lines) ↔
      ∀ r ∈ align reference.lines working.lines, r.Seamless profile := by
  refine Iff.trans ?_ (isChain_chosenLines_iff profile reference.isChain_not_fuses_lines
    working.isChain_not_fuses_lines)
  constructor
  · intro h
    rw [← h]
    exact Text.isChain_not_fuses_lines _
  · intro h
    rw [lines_content_eq_fuse, Text.fuse_eq_self h]

theorem perLine_of_not_seamless {r : Region} (hr : r ∈ align reference.lines working.lines)
    (h : ¬ r.Seamless profile) : ∃ sides, (r.judge profile).ruling = .perLine sides := by
  have hsides := isChain_sides_of_mem_align reference.isChain_not_fuses_lines
    working.isChain_not_fuses_lines hr
  exact (r.isChain_judge_or_perLine profile hsides.1 hsides.2).resolve_left h

/-- A `\r` that ends a line alone is what it takes for lines to fuse. -/
theorem seamless_of_no_lone_cr
    (hreference : ∀ l ∈ reference.lines, l.getLast? ≠ some '\r')
    (hworking : ∀ l ∈ working.lines, l.getLast? ≠ some '\r') {r : Region}
    (hr : r ∈ align reference.lines working.lines) : r.Seamless profile := by
  have haligned := aligned_align reference.lines working.lines
  apply List.Pairwise.isChain
  apply List.pairwise_of_forall_mem_list
  rintro a ha b - ⟨hlast, -⟩
  rcases Region.mem_sides_of_mem_judge ha with hside | hside
  · exact hreference a (haligned.mem_reference hr hside) hlast
  · exact hworking a (haligned.mem_working hr hside) hlast

end Result

/-- **The lines of the result.** They are the lines chosen, region by region, with those
fused that meet as a lone `\r` and a `\n`; none is split. So they are exactly the lines
chosen, and between the smaller and the larger sides many, when no region chooses lines
that fuse. Only regions judged line by line can, and none does where no line of either text
ends with a lone `\r`. -/
theorem lines_denoise (profile : Option Grammar) (reference working : Text) :
    Text.lines (denoise profile reference working).content =
      Text.fuse (chosenLines profile (align reference.lines working.lines)) ∧
    (Text.lines (denoise profile reference working).content =
        chosenLines profile (align reference.lines working.lines) ↔
      ∀ r ∈ align reference.lines working.lines, r.Seamless profile) ∧
    (∀ r ∈ align reference.lines working.lines, ¬ r.Seamless profile →
      ∃ sides, (r.judge profile).ruling = .perLine sides) ∧
    ((∀ l ∈ reference.lines, l.getLast? ≠ some '\r') →
      (∀ l ∈ working.lines, l.getLast? ≠ some '\r') →
      ∀ r ∈ align reference.lines working.lines, r.Seamless profile) ∧
    (Text.lines (denoise profile reference working).content).length ≤
      ((align reference.lines working.lines).map
        fun r => max r.reference.length r.working.length).sum ∧
    ((∀ r ∈ align reference.lines working.lines, r.Seamless profile) →
      ((align reference.lines working.lines).map
          fun r => min r.reference.length r.working.length).sum ≤
        (Text.lines (denoise profile reference working).content).length) := by
  have hfuse := lines_content_eq_fuse profile reference working
  have hiff := lines_content_eq_iff profile reference working
  have hlength := length_chosenLines profile (align reference.lines working.lines)
  refine ⟨hfuse, hiff, ?_, ?_, ?_, ?_⟩
  · intro r hr h
    exact perLine_of_not_seamless profile reference working hr h
  · intro hreference hworking r hr
    exact seamless_of_no_lone_cr profile reference working hreference hworking hr
  · rw [hfuse]
    exact Nat.le_trans (Text.length_fuse_le _) hlength.2
  · intro hseamless
    rw [hiff.2 hseamless]
    exact hlength.1

/-- Lines that end with `\n` and lines that end with `\r\n`, judged one by one: the result
has the lines chosen. -/
theorem lines_denoise_of_mixed_endings :
    (∀ r ∈ align (Text.lines "a\r\nb\n".toList) (Text.lines "a\nc\r\n".toList),
      r.Seamless none) ∧
    Text.lines (denoise none "a\r\nb\n".toList "a\nc\r\n".toList).content =
      chosenLines none
        (align (Text.lines "a\r\nb\n".toList) (Text.lines "a\nc\r\n".toList)) := by
  have hall := lines_denoise none "a\r\nb\n".toList "a\nc\r\n".toList
  have hseamless := hall.2.2.2.1 (by decide) (by decide)
  exact ⟨hseamless, hall.2.1.2 hseamless⟩

/-- Of two pairs of lines the first is restored, which ends with a lone `\r`, and of the
second the empty line stays: two lines chosen, one line in the result. -/
theorem not_lines_denoise :
    ¬ ∀ (profile : Option Grammar) (reference working : Text),
      Text.lines (denoise profile reference working).content =
        chosenLines profile (align reference.lines working.lines) := by
  intro h
  have hregions : align (Text.lines "a\rb\n".toList) (Text.lines "a\n\n".toList) =
      [⟨.replace, ["a\r".toList, "b\n".toList], ["a\n".toList, "\n".toList]⟩] := by
    have hscript : anchoredScript (Text.lines "a\rb\n".toList) (Text.lines "a\n\n".toList) =
        [.add ["a\n".toList, "\n".toList], .drop ["a\r".toList, "b\n".toList]] := by
      decide +kernel
    rw [align, hscript, show settle _ = _ by cbv]
    decide +kernel
  have hlines := h none "a\rb\n".toList "a\n\n".toList
  rw [content_denoise, hregions] at hlines
  exact absurd hlines (by decide)

end CleanDiff
