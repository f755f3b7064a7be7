import CleanDiff.Proofs.LineBreak
import CleanDiff.Proofs.Meaning
import Mathlib.Logic.Relation

/-!
# Blanks beside a line break

Trailing blanks, indentation, blank lines and the `\r` of a line ending have one thing in
common: each can be put into a text, or taken out of it, one blank at a time and always
directly beside a `\n`. **A blank beside a line break changes no signature**, wherever the
line break stands, so any number of such steps is noise (`signature_beside_break`).

* `Reformatted`: one text is made from another by such steps.
* `Gap.reformatted`, `Reflowed.reformatted`: the steps reach every way to write a line break,
  so `Reformatted` leaves out nothing that `Reflowed` allows.
-/

namespace CleanDiff

namespace Text

/-- The second text has one blank more than the first, directly before or behind a `\n`. -/
inductive BesideBreak : Text → Text → Prop
  | before (u v : Text) {c : Char} (hc : isBlank c = true) :
      BesideBreak (u ++ '\n' :: v) (u ++ c :: '\n' :: v)
  | behind (u v : Text) {c : Char} (hc : isBlank c = true) :
      BesideBreak (u ++ '\n' :: v) (u ++ '\n' :: c :: v)

/-- The second text is made from the first by putting blanks in beside line breaks and taking
such blanks out, any number of times. -/
def Reformatted : Text → Text → Prop := Relation.EqvGen BesideBreak

/-! ### One blank is another way to write a gap -/

theorem Reflowed.refl (t : Text) : Reflowed t t := by
  induction t with
  | nil => exact .nil
  | cons c t ih => exact .cons c ih

theorem Reflowed.prepend (u : Text) {t t' : Text} (h : Reflowed t t') :
    Reflowed (u ++ t) (u ++ t') := by
  induction u with
  | nil => exact h
  | cons c u ih => exact .cons c ih

theorem BesideBreak.reflowed {t t' : Text} (h : BesideBreak t t') : Reflowed t t' := by
  cases h with
  | @before u v c hc =>
      have hgap : Gap [c, '\n'] := ⟨List.forall_mem_cons.2 ⟨hc, gap_lf.blank⟩, by simp⟩
      exact .prepend u (.gap gap_lf hgap (.refl v))
  | @behind u v c hc =>
      have hgap : Gap ['\n', c] :=
        ⟨List.forall_mem_append.2 ⟨gap_lf.blank, by simpa using hc⟩, by simp⟩
      exact .prepend u (.gap gap_lf hgap (.refl v))

/-! ### Every gap is reached -/

theorem BesideBreak.prepend (a : Text) {t t' : Text} (h : BesideBreak t t') :
    BesideBreak (a ++ t) (a ++ t') := by
  cases h with
  | before u v hc =>
      rw [← List.append_assoc, ← List.append_assoc]
      exact .before (a ++ u) v hc
  | behind u v hc =>
      rw [← List.append_assoc, ← List.append_assoc]
      exact .behind (a ++ u) v hc

theorem Reformatted.prepend (a : Text) {t t' : Text} (h : Reformatted t t') :
    Reformatted (a ++ t) (a ++ t') := by
  induction h with
  | rel t t' h => exact .rel _ _ (h.prepend a)
  | refl t => exact .refl _
  | symm t t' _ ih => exact .symm _ _ ih
  | trans t t' t'' _ _ ih ih' => exact .trans _ _ _ ih ih'

/-- Blanks in front of a line break come in one after the other, each directly before it. -/
theorem reformatted_before {lead : Text} (h : ∀ c ∈ lead, isBlank c = true) (t : Text) :
    Reformatted ('\n' :: t) (lead ++ '\n' :: t) := by
  induction lead with
  | nil => exact .refl _
  | cons c lead ih =>
      rw [List.forall_mem_cons] at h
      exact .trans _ _ _ (.rel _ _ (.before [] t h.1)) ((ih h.2).prepend [c])

/-- Blanks behind a line break come in from the last to the first. -/
theorem reformatted_behind {rest : Text} (h : ∀ c ∈ rest, isBlank c = true) (t : Text) :
    Reformatted ('\n' :: t) ('\n' :: (rest ++ t)) := by
  induction rest with
  | nil => exact .refl _
  | cons c rest ih =>
      rw [List.forall_mem_cons] at h
      exact .trans _ _ _ (ih h.2) (.rel _ _ (.behind [] (rest ++ t) h.1))

theorem Gap.reformatted {b : Text} (hb : Gap b) (t : Text) :
    Reformatted ('\n' :: t) (b ++ t) := by
  obtain ⟨lead, rest, rfl, -⟩ := List.eq_append_cons_of_mem hb.breaks
  have hblank := List.forall_mem_append.1 hb.blank
  have hrest := (List.forall_mem_cons.1 hblank.2).2
  rw [List.append_assoc, List.cons_append]
  exact .trans _ _ _ (reformatted_behind hrest t) (reformatted_before hblank.1 (rest ++ t))

theorem Reflowed.reformatted {t t' : Text} (h : Reflowed t t') : Reformatted t t' := by
  induction h with
  | nil => exact .refl _
  | cons c _ ih => exact ih.prepend [c]
  | @gap b b' t t' hb hb' _ ih =>
      exact .trans _ _ _ (.symm _ _ (hb.reformatted t))
        (.trans _ _ _ (ih.prepend ['\n']) (hb'.reformatted t'))

end Text

/-! ### Signatures and verdicts -/

theorem Text.Reformatted.signature_eq {t t' : Text} (h : Text.Reformatted t t')
    (profile : Option Grammar) : signature profile t = signature profile t' := by
  induction h with
  | rel t t' h => exact h.reflowed.signature_eq profile
  | refl t => rfl
  | symm t t' _ ih => exact ih.symm
  | trans t t' t'' _ _ ih ih' => exact ih.trans ih'

/-- **A blank beside a line break changes no signature**, in plain text, in a literal or in a
comment. So texts that are reformatted into one another differ by noise only; every other way
to write the gaps of a text (trailing blanks, indentation, blank lines, `\r\n`) is such a
reformatting; and a changed region whose sides are reformatted into one another is restored
as a whole. -/
theorem signature_beside_break (profile : Option Grammar) :
    (∀ (u v : Text) (c : Char), isBlank c = true →
      signature profile (u ++ c :: '\n' :: v) = signature profile (u ++ '\n' :: v) ∧
      signature profile (u ++ '\n' :: c :: v) = signature profile (u ++ '\n' :: v)) ∧
    (∀ t t' : Text, Text.Reformatted t t' → sameMeaning profile t t' = true) ∧
    (∀ t t' : Text, Text.Reflowed t t' → Text.Reformatted t t') ∧
    ∀ r : Region, r.kind ≠ .equal →
      Text.Reformatted r.reference.flatten r.working.flatten →
        (r.judge profile).lines = r.reference ∧
        (r.judge profile).ruling = .whole .reference := by
  refine ⟨?_, ?_, ?_, ?_⟩
  · intro u v c hc
    exact ⟨((Text.BesideBreak.before u v hc).reflowed.signature_eq profile).symm,
      ((Text.BesideBreak.behind u v hc).reflowed.signature_eq profile).symm⟩
  · intro t t' h
    exact sameMeaning_iff.2 (h.signature_eq profile)
  · intro t t' h
    exact h.reformatted
  · intro r hkind h
    rw [Region.judge_of_noise hkind (h.signature_eq profile)]
    exact ⟨rfl, rfl⟩

/-- A tab between a backslash and the line break it escapes, inside a literal, and a wide
space behind the line break that ends a comment. -/
theorem signature_beside_escaped_break :
    isBlank '\t' = true ∧
    signature (some .hash) ("s = 'a\\".toList ++ '\t' :: '\n' :: "#b' # c\n".toList) =
      signature (some .hash) ("s = 'a\\".toList ++ '\n' :: "#b' # c\n".toList) ∧
    isBlank '\u3000' = true ∧
    signature (some .hash) ("s = 'a' # c".toList ++ '\n' :: '\u3000' :: "'#'".toList) =
      signature (some .hash) ("s = 'a' # c".toList ++ '\n' :: "'#'".toList) := by
  have htab : isBlank '\t' = true := by decide
  have hwide : isBlank '\u3000' = true := by decide
  exact ⟨htab, ((signature_beside_break (some .hash)).1 _ _ _ htab).1,
    hwide, ((signature_beside_break (some .hash)).1 _ _ _ hwide).2⟩

end CleanDiff
