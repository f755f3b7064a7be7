import CleanDiff.Alignment.Region
import Mathlib.Data.List.Chain

/-!
# Regions cover both texts

Whatever script the search finds and however it is settled, **no line is lost, added
or moved to another place**: the sides of the regions of an alignment concatenate to
the two sequences that were aligned (`aligned_align`), the sides of every region fit its
kind (`fits_of_mem_align`), and equal and changed regions alternate (`alternates_align`).
All of this at once is `Tiles`, which any covering script gives (`tiles_ofScript`) and which
leaves no choice where one of the sequences is empty (`align_tiles`).

The search is known to find a covering script (`covers_anchoredScript`). What is
shown here is that settling keeps a script covering, one move at a time, and that
joining edits into regions loses nothing.
-/

namespace CleanDiff

variable {α : Type}

/-! ### Kept runs put into a script

Both sides of a kept run are the run, so these facts are about either side `f`. -/

section Sides

variable {f : Edit α → List α} (hf : ∀ run, f (.keep run) = run)

include hf

theorem flatMap_keepOnto (run : List α) (edits : List (Edit α)) :
    (keepOnto run edits).flatMap f = run ++ edits.flatMap f := by
  fun_cases keepOnto run edits <;> simp [hf]

theorem flatMap_keepBehind (run : List α) (edits : List (Edit α)) :
    (keepBehind run edits).reverse.flatMap f = edits.reverse.flatMap f ++ run := by
  fun_cases keepBehind run edits <;> simp [hf]

theorem flatMap_withKeep (run : List α) (edits : List (Edit α)) :
    (withKeep run edits).flatMap f = run ++ edits.flatMap f := by
  fun_cases withKeep run edits <;> simp [hf]

theorem flatMap_withKeep_reverse (run : List α) (edits : List (Edit α)) :
    (withKeep run edits).reverse.flatMap f = edits.reverse.flatMap f ++ run := by
  fun_cases withKeep run edits <;> simp [hf]

end Sides

theorem reference_keep (run : List α) : (Edit.keep run).reference = run := rfl

theorem working_keep (run : List α) : (Edit.keep run).working = run := rfl

/-! ### Settling keeps a script covering -/

/-- The script that a cursor holds. -/
def Cursor.script (c : Cursor α) : List (Edit α) := c.before.reverse ++ c.here :: c.beyond

theorem covers_script_iff {c : Cursor α} {o n : List α} :
    Covers c.script o n ↔
      c.before.reverse.flatMap Edit.reference ++
          (c.here.reference ++ c.beyond.flatMap Edit.reference) = o ∧
        c.before.reverse.flatMap Edit.working ++
          (c.here.working ++ c.beyond.flatMap Edit.working) = n := by
  simp only [Covers, Cursor.script, List.flatMap_append, List.flatMap_cons]

variable [DecidableEq α]

theorem covers_raise {before beyond : List (Edit α)} {here : Edit α} {o n : List α}
    (h : Covers (Cursor.script ⟨before, here, beyond⟩) o n) :
    Covers (raise before here beyond).script o n := by
  fun_induction raise before here beyond with
  | case1 beyond k rest a cut _ _ _ ih =>
      -- What `k` and `a` share at their ends stands behind the add now, as a kept run.
      have hold : cut.2.1 ++ cut.1 = k := splitSharedEnd_old k a
      have hnew : cut.2.2 ++ cut.1 = a := splitSharedEnd_new k a
      apply ih
      rw [covers_script_iff] at h ⊢
      obtain ⟨rfl, rfl⟩ := h
      simp only [flatMap_keepOnto reference_keep, flatMap_keepOnto working_keep,
        flatMap_withKeep_reverse reference_keep, flatMap_withKeep_reverse working_keep,
        Edit.reference, Edit.working, List.reverse_cons, List.flatMap_append, List.flatMap_cons,
        List.flatMap_nil, List.append_assoc, List.nil_append, List.append_nil]
      constructor
      · rw [← List.append_assoc cut.2.1, hold]
      · rw [← List.append_assoc cut.2.2, hnew, ← List.append_assoc cut.2.1, hold]
  | case3 | case5 | case10 => exact h
  | case2 _ _ _ _ _ ih | case4 _ _ _ ih | case6 _ _ _ _ ih | case7 _ _ _ _ ih
  | case8 _ _ _ _ ih | case9 _ _ _ _ ih =>
      apply ih
      simpa [covers_script_iff, Edit.reference, Edit.working] using h

theorem covers_lower {before beyond : List (Edit α)} {here : Edit α} {o n : List α}
    (h : Covers (Cursor.script ⟨before, here, beyond⟩) o n) :
    Covers (lower before here beyond).script o n := by
  fun_induction lower before here beyond with
  | case1 before k rest a cut _ _ _ ih =>
      -- What `k` and `a` share at their beginnings stands before the add now.
      have hold : cut.1 ++ cut.2.1 = k := splitShared_old k a
      have hnew : cut.1 ++ cut.2.2 = a := splitShared_new k a
      apply ih
      rw [covers_script_iff] at h ⊢
      obtain ⟨rfl, rfl⟩ := h
      simp only [flatMap_keepBehind reference_keep, flatMap_keepBehind working_keep,
        flatMap_withKeep reference_keep, flatMap_withKeep working_keep,
        Edit.reference, Edit.working, List.flatMap_cons, List.append_assoc, List.nil_append]
      constructor
      · rw [← List.append_assoc cut.1, hold]
      · rw [← List.append_assoc cut.1 cut.2.1, hold, ← List.append_assoc cut.1 cut.2.2, hnew]
  | case3 | case5 | case10 => exact h
  | case2 _ _ _ _ _ ih | case4 _ _ _ ih | case6 _ _ _ _ ih | case7 _ _ _ _ ih
  | case8 _ _ _ _ ih | case9 _ _ _ _ ih =>
      apply ih
      simpa [covers_script_iff, Edit.reference, Edit.working] using h

theorem covers_settleKind {k : EditKind} {before beyond : List (Edit α)} {o n : List α}
    (h : Covers (before.reverse ++ beyond) o n) : Covers (settleKind k before beyond) o n := by
  fun_induction settleKind k before beyond with
  | case1 before => simpa using h
  | case2 before here rest _ _ c ih =>
      apply ih
      have hsettled : Covers c.script o n := covers_lower (covers_raise h)
      simpa [Cursor.script] using hsettled
  | case3 before here rest _ ih =>
      apply ih
      simpa using h

theorem covers_settle {script : List (Edit α)} {o n : List α} (h : Covers script o n) :
    Covers (settle script) o n :=
  covers_settleKind (covers_settleKind h)

/-! ### Regions lose nothing -/

namespace Region

theorem reference_ofEdit (e : Edit Text) : (ofEdit e).reference = e.reference := by
  cases e <;> rfl

theorem working_ofEdit (e : Edit Text) : (ofEdit e).working = e.working := by
  cases e <;> rfl

theorem reference_onto (r : Region) (regions : List Region) :
    (r.onto regions).flatMap reference = r.reference ++ regions.flatMap reference := by
  fun_cases onto r regions <;> simp [join]

theorem working_onto (r : Region) (regions : List Region) :
    (r.onto regions).flatMap working = r.working ++ regions.flatMap working := by
  fun_cases onto r regions <;> simp [join]

theorem sides_of_run_eq_nil {e : Edit Text} (h : e.run = []) :
    e.reference = [] ∧ e.working = [] := by
  cases e with
  | keep run => exact ⟨h, h⟩
  | drop run => exact ⟨h, rfl⟩
  | add run => exact ⟨rfl, h⟩

theorem reference_ofScript (script : List (Edit Text)) :
    (ofScript script).flatMap reference = script.flatMap Edit.reference := by
  induction script with
  | nil => rfl
  | cons e rest ih =>
      rw [ofScript, List.flatMap_cons]
      split
      · next hrun => rw [(sides_of_run_eq_nil hrun).1, List.nil_append, ih]
      · rw [reference_onto, reference_ofEdit, ih]

theorem working_ofScript (script : List (Edit Text)) :
    (ofScript script).flatMap working = script.flatMap Edit.working := by
  induction script with
  | nil => rfl
  | cons e rest ih =>
      rw [ofScript, List.flatMap_cons]
      split
      · next hrun => rw [(sides_of_run_eq_nil hrun).2, List.nil_append, ih]
      · rw [working_onto, working_ofEdit, ih]

/-! ### The sides of a region fit its kind -/

/-- An equal region has one and the same lines on both sides; an insertion has lines
on the working side only, a deletion on the reference side only, and a replacement
on both. -/
def Fits (r : Region) : Prop :=
  match r.kind with
  | .equal => r.reference = r.working ∧ r.reference ≠ []
  | .insert => r.reference = [] ∧ r.working ≠ []
  | .delete => r.reference ≠ [] ∧ r.working = []
  | .replace => r.reference ≠ [] ∧ r.working ≠ []

theorem Fits.sides_eq {r : Region} (h : r.Fits) (hkind : r.kind = .equal) :
    r.reference = r.working := by
  rw [Fits, hkind] at h
  exact h.1

theorem Fits.reference_ne_nil {r : Region} (h : r.Fits) (hkind : r.kind = .equal) :
    r.reference ≠ [] := by
  rw [Fits, hkind] at h
  exact h.2

theorem Fits.ne_nil {r : Region} (h : r.Fits) : r.reference ≠ [] ∨ r.working ≠ [] := by
  unfold Fits at h
  split at h
  · exact Or.inl h.2
  · exact Or.inr h.2
  · exact Or.inl h.1
  · exact Or.inl h.1

theorem Fits.kind_eq_insert {r : Region} (h : r.Fits) (hreference : r.reference = []) :
    r.kind = .insert := by
  cases hkind : r.kind with
  | insert => rfl
  | equal => exact absurd hreference (h.reference_ne_nil hkind)
  | delete | replace =>
      rw [Fits, hkind] at h
      exact absurd hreference h.1

theorem Fits.kind_eq_delete {r : Region} (h : r.Fits) (hworking : r.working = []) :
    r.kind = .delete := by
  cases hkind : r.kind with
  | delete => rfl
  | equal => exact absurd (h.sides_eq hkind ▸ hworking) (h.reference_ne_nil hkind)
  | insert | replace =>
      rw [Fits, hkind] at h
      exact absurd hworking h.2

theorem Fits.kind_eq_replace {r : Region} (h : r.Fits) (hreference : r.reference ≠ [])
    (hworking : r.working ≠ []) : r.kind = .equal ∨ r.kind = .replace := by
  cases hkind : r.kind with
  | equal => exact Or.inl rfl
  | replace => exact Or.inr rfl
  | insert =>
      rw [Fits, hkind] at h
      exact absurd h.1 hreference
  | delete =>
      rw [Fits, hkind] at h
      exact absurd h.2 hworking

theorem Fits.kind_eq_ofSides {r : Region} (h : r.Fits) (hkind : r.kind ≠ .equal) :
    r.kind = .ofSides r.reference r.working := by
  unfold Fits at h
  split at h
  · next hequal => exact absurd hequal hkind
  · next hinsert => rw [hinsert, RegionKind.ofSides, if_pos h.1]
  · next hdelete => rw [hdelete, RegionKind.ofSides, if_neg h.1, if_pos h.2]
  · next hreplace => rw [hreplace, RegionKind.ofSides, if_neg h.1, if_neg h.2]

theorem fits_ofSides {reference working : List Text} (h : reference ≠ [] ∨ working ≠ []) :
    Fits ⟨.ofSides reference working, reference, working⟩ := by
  unfold RegionKind.ofSides
  by_cases hr : reference = []
  · rw [if_pos hr]
    exact ⟨hr, h.resolve_left (fun hne => hne hr)⟩
  · rw [if_neg hr]
    by_cases hw : working = []
    · rw [if_pos hw]
      exact ⟨hr, hw⟩
    · rw [if_neg hw]
      exact ⟨hr, hw⟩

theorem fits_ofEdit {e : Edit Text} (h : e.run ≠ []) : (ofEdit e).Fits := by
  cases e with
  | keep run => exact ⟨rfl, h⟩
  | drop run => exact ⟨h, rfl⟩
  | add run => exact ⟨rfl, h⟩

theorem fits_join {r s : Region} (hr : r.Fits) (hs : s.Fits) (h : r.isEqual = s.isEqual) :
    (r.join s).Fits := by
  by_cases hequal : r.isEqual = true
  · have hrk : r.kind = .equal := by simpa [isEqual] using hequal
    have hsk : s.kind = .equal := by
      rw [h] at hequal
      simpa [isEqual] using hequal
    have hne : r.reference ≠ [] := hr.reference_ne_nil hrk
    rw [join, if_pos hequal]
    refine ⟨?_, ?_⟩
    · show r.reference ++ s.reference = r.working ++ s.working
      rw [hr.sides_eq hrk, hs.sides_eq hsk]
    · exact List.append_ne_nil_of_left_ne_nil hne _
  · rw [join, if_neg hequal]
    apply fits_ofSides
    rcases hr.ne_nil with hne | hne
    · exact Or.inl (List.append_ne_nil_of_left_ne_nil hne _)
    · exact Or.inr (List.append_ne_nil_of_left_ne_nil hne _)

theorem fits_onto {r : Region} {regions : List Region} (hr : r.Fits)
    (h : ∀ s ∈ regions, s.Fits) : ∀ s ∈ r.onto regions, s.Fits := by
  cases regions with
  | nil => simpa [onto] using hr
  | cons s rest =>
      rw [List.forall_mem_cons] at h
      rw [onto]
      split
      · next hsort => exact List.forall_mem_cons.2 ⟨fits_join hr h.1 hsort, h.2⟩
      · exact List.forall_mem_cons.2 ⟨hr, List.forall_mem_cons.2 h⟩

theorem fits_ofScript (script : List (Edit Text)) : ∀ r ∈ ofScript script, r.Fits := by
  induction script with
  | nil => simp [ofScript]
  | cons e rest ih =>
      rw [ofScript]
      split
      · exact ih
      · next hrun => exact fits_onto (fits_ofEdit hrun) ih

/-! ### Equal and changed regions alternate -/

/-- Of two regions in a row, one is equal and one is changed. -/
def Alternates (regions : List Region) : Prop :=
  regions.IsChain fun r s => r.isEqual ≠ s.isEqual

theorem isEqual_join {r s : Region} (h : r.isEqual = s.isEqual) :
    (r.join s).isEqual = s.isEqual := by
  by_cases hequal : r.isEqual = true
  · rw [← h, hequal, join, if_pos hequal]
    rfl
  · rw [Bool.not_eq_true] at hequal
    rw [← h, hequal, join, if_neg (by simp [hequal])]
    unfold RegionKind.ofSides
    split
    · rfl
    · split <;> rfl

theorem alternates_onto {r : Region} {regions : List Region} (h : Alternates regions) :
    Alternates (r.onto regions) := by
  cases regions with
  | nil => exact .singleton r
  | cons s rest =>
      rw [onto]
      split
      · next hsort =>
        -- The joined region takes the place of the first one, and is of its sort.
        rw [Alternates, List.isChain_cons] at h ⊢
        rwa [isEqual_join hsort]
      · next hsort => exact List.isChain_cons_cons.2 ⟨hsort, h⟩

theorem alternates_ofScript (script : List (Edit Text)) : Alternates (ofScript script) := by
  induction script with
  | nil => exact .nil
  | cons e rest ih =>
      rw [ofScript]
      split
      · exact ih
      · exact alternates_onto ih

/-- Behind a changed region comes an equal one, if any. -/
theorem Alternates.next_equal {r s : Region} {rest : List Region}
    (h : Alternates (r :: s :: rest)) (hr : r.kind ≠ .equal) : s.kind = .equal := by
  have hne := (List.isChain_cons_cons.1 h).1
  by_contra hs
  exact hne (by simp [isEqual, hr, hs])

/-- Regions of one sort alone do not alternate, so there is at most one. -/
theorem Alternates.eq_nil {r : Region} {rest : List Region} (h : Alternates (r :: rest))
    (hsort : ∀ s ∈ rest, s.isEqual = r.isEqual) : rest = [] := by
  cases rest with
  | nil => rfl
  | cons s rest =>
      have hne := (List.isChain_cons_cons.1 h).1
      exact absurd (hsort s List.mem_cons_self).symm hne

end Region

/-! ### Alignments -/

theorem covers_align_script (reference working : List Text) :
    Covers (settle (anchoredScript reference working)) reference working :=
  covers_settle (covers_anchoredScript reference working)

/-- The reference sides of an alignment concatenate to the reference lines. -/
theorem reference_align (reference working : List Text) :
    (align reference working).flatMap Region.reference = reference := by
  rw [align, Region.reference_ofScript]
  exact (covers_align_script reference working).1

/-- The working sides of an alignment concatenate to the working lines. -/
theorem working_align (reference working : List Text) :
    (align reference working).flatMap Region.working = working := by
  rw [align, Region.working_ofScript]
  exact (covers_align_script reference working).2

theorem fits_of_mem_align {reference working : List Text} {r : Region}
    (h : r ∈ align reference working) : r.Fits :=
  Region.fits_ofScript _ r h

theorem alternates_align (reference working : List Text) :
    Region.Alternates (align reference working) :=
  Region.alternates_ofScript _

/-- Some regions cover two sequences of lines: their sides concatenate to the sequences,
in order, and an equal region has the same lines on both sides. This is all that the
theory of verdicts uses of an alignment, however it was found. -/
structure Aligned (regions : List Region) (reference working : List Text) : Prop where
  reference : regions.flatMap Region.reference = reference
  working : regions.flatMap Region.working = working
  sides_eq : ∀ r ∈ regions, r.kind = .equal → r.reference = r.working

theorem aligned_ofScript {script : List (Edit Text)} {reference working : List Text}
    (h : Covers script reference working) :
    Aligned (Region.ofScript script) reference working where
  reference := (Region.reference_ofScript script).trans h.1
  working := (Region.working_ofScript script).trans h.2
  sides_eq := fun r hr hkind => (Region.fits_ofScript script r hr).sides_eq hkind

theorem aligned_align (reference working : List Text) :
    Aligned (align reference working) reference working :=
  aligned_ofScript (covers_align_script reference working)

namespace Aligned

variable {regions : List Region} {reference working : List Text} {r : Region} {l : Text}

theorem mem_reference (h : Aligned regions reference working) (hr : r ∈ regions)
    (hl : l ∈ r.reference) : l ∈ reference := by
  rw [← h.reference]
  exact List.mem_flatMap.2 ⟨r, hr, hl⟩

theorem mem_working (h : Aligned regions reference working) (hr : r ∈ regions)
    (hl : l ∈ r.working) : l ∈ working := by
  rw [← h.working]
  exact List.mem_flatMap.2 ⟨r, hr, hl⟩

end Aligned

/-! ### The shape of an alignment -/

/-- Some regions tile two sequences of lines: they cover them, the sides of each region fit
its kind, and equal and changed regions alternate. -/
structure Tiles (regions : List Region) (reference working : List Text) : Prop
    extends Aligned regions reference working where
  fits : ∀ r ∈ regions, r.Fits
  alternates : Region.Alternates regions

theorem tiles_ofScript {script : List (Edit Text)} {reference working : List Text}
    (h : Covers script reference working) : Tiles (Region.ofScript script) reference working where
  toAligned := aligned_ofScript h
  fits := Region.fits_ofScript script
  alternates := Region.alternates_ofScript script

namespace Tiles

variable {regions : List Region} {reference working : List Text}

theorem eq_nil_iff (h : Tiles regions reference working) :
    regions = [] ↔ reference = [] ∧ working = [] := by
  constructor
  · rintro rfl
    exact ⟨h.reference.symm, h.working.symm⟩
  · rintro ⟨rfl, rfl⟩
    rw [List.eq_nil_iff_forall_not_mem]
    intro r hr
    rcases (h.fits r hr).ne_nil with hne | hne
    · exact hne (List.flatMap_eq_nil_iff.1 h.reference r hr)
    · exact hne (List.flatMap_eq_nil_iff.1 h.working r hr)

/-- Where the two sequences share nothing no region is equal, so all is in one region. -/
theorem exists_eq_singleton (h : Tiles regions reference working)
    (hshared : ∀ l ∈ reference, l ∉ working) (hne : regions ≠ []) :
    ∃ kind, regions = [⟨kind, reference, working⟩] := by
  have hchanged : ∀ r ∈ regions, r.kind ≠ .equal := by
    intro r hr hkind
    obtain ⟨l, hl⟩ := List.exists_mem_of_ne_nil _ ((h.fits r hr).reference_ne_nil hkind)
    have hl' : l ∈ r.working := h.sides_eq r hr hkind ▸ hl
    exact hshared l (h.mem_reference hr hl) (h.mem_working hr hl')
  obtain ⟨r, rest, rfl⟩ := List.exists_cons_of_ne_nil hne
  rw [List.forall_mem_cons] at hchanged
  have hkinds : ∀ s ∈ rest, s.isEqual = r.isEqual := by
    intro s hs
    simp [Region.isEqual, hchanged.1, hchanged.2 s hs]
  obtain rfl := h.alternates.eq_nil hkinds
  refine ⟨r.kind, ?_⟩
  rw [← h.reference, ← h.working, List.flatMap_singleton, List.flatMap_singleton]

/-- Without reference lines everything is inserted. -/
theorem eq_insert (h : Tiles regions [] working) (hworking : working ≠ []) :
    regions = [⟨.insert, [], working⟩] := by
  have hne : regions ≠ [] := fun hnil => hworking (h.eq_nil_iff.1 hnil).2
  obtain ⟨kind, rfl⟩ := h.exists_eq_singleton (by simp) hne
  obtain rfl : kind = .insert := (h.fits _ List.mem_cons_self).kind_eq_insert rfl
  rfl

/-- Without working lines everything is deleted. -/
theorem eq_delete (h : Tiles regions reference []) (hreference : reference ≠ []) :
    regions = [⟨.delete, reference, []⟩] := by
  have hne : regions ≠ [] := fun hnil => hreference (h.eq_nil_iff.1 hnil).1
  obtain ⟨kind, rfl⟩ := h.exists_eq_singleton (by simp) hne
  obtain rfl : kind = .delete := (h.fits _ List.mem_cons_self).kind_eq_delete rfl
  rfl

/-- Where both sequences have lines but none in common, everything is replaced. -/
theorem eq_replace (h : Tiles regions reference working) (hshared : ∀ l ∈ reference, l ∉ working)
    (hreference : reference ≠ []) (hworking : working ≠ []) :
    regions = [⟨.replace, reference, working⟩] := by
  have hne : regions ≠ [] := fun hnil => hreference (h.eq_nil_iff.1 hnil).1
  obtain ⟨kind, rfl⟩ := h.exists_eq_singleton hshared hne
  have hkind := (h.fits _ List.mem_cons_self).kind_eq_replace hreference hworking
  obtain rfl : kind = .replace := hkind.resolve_left fun hequal => by
    obtain ⟨l, hl⟩ := List.exists_mem_of_ne_nil _ hreference
    have hsides : reference = working := h.sides_eq _ List.mem_cons_self hequal
    exact hshared l hl (hsides ▸ hl)
  rfl

/-- Where all regions are equal there is one of them. -/
theorem eq_equal (h : Tiles regions reference working) (hequal : ∀ r ∈ regions, r.kind = .equal)
    (hne : regions ≠ []) : regions = [⟨.equal, reference, working⟩] := by
  obtain ⟨r, rest, rfl⟩ := List.exists_cons_of_ne_nil hne
  rw [List.forall_mem_cons] at hequal
  obtain rfl := h.alternates.eq_nil fun s hs => by simp [Region.isEqual, hequal.1, hequal.2 s hs]
  rw [← h.reference, ← h.working, List.flatMap_singleton, List.flatMap_singleton, ← hequal.1]

end Tiles

/-- **The regions of an alignment tile the two sequences**, and so do the regions of every
other script that covers them. There is no region exactly if both sequences are empty, and
one region when one of them is. -/
theorem align_tiles (reference working : List Text) :
    Tiles (align reference working) reference working ∧
    (∀ script, Covers script reference working →
      Tiles (Region.ofScript script) reference working) ∧
    (align reference working = [] ↔ reference = [] ∧ working = []) ∧
    (working ≠ [] → align [] working = [⟨.insert, [], working⟩]) ∧
    (reference ≠ [] → align reference [] = [⟨.delete, reference, []⟩]) := by
  have htiles : ∀ r w, Tiles (align r w) r w := fun r w => tiles_ofScript (covers_align_script r w)
  exact ⟨htiles reference working, fun script h => tiles_ofScript h,
    (htiles reference working).eq_nil_iff, (htiles [] working).eq_insert,
    (htiles reference []).eq_delete⟩

/-- A script with an edit about nothing between two kept runs, and an add between two drops:
the kept runs are one region and the changes another. -/
theorem align_tiles_of_ragged_script :
    Covers [.keep [['a']], .drop [], .keep [['b']], .drop [['c']], .add [['d']], .drop [['e']]]
        [['a'], ['b'], ['c'], ['e']] [['a'], ['b'], ['d']] ∧
    Tiles [⟨.equal, [['a'], ['b']], [['a'], ['b']]⟩, ⟨.replace, [['c'], ['e']], [['d']]⟩]
        [['a'], ['b'], ['c'], ['e']] [['a'], ['b'], ['d']] ∧
    align [] [['a'], ['b']] = [⟨.insert, [], [['a'], ['b']]⟩] := by
  have hcovers : Covers
      [.keep [['a']], .drop [], .keep [['b']], .drop [['c']], .add [['d']], .drop [['e']]]
      [['a'], ['b'], ['c'], ['e']] [['a'], ['b'], ['d']] := ⟨rfl, rfl⟩
  exact ⟨hcovers, (align_tiles _ _).2.1 _ hcovers,
    (align_tiles [] [['a'], ['b']]).2.2.2.1 (by simp)⟩

end CleanDiff
