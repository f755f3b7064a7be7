import CleanDiff.Grammar.Token
import CleanDiff.Text.Blank
import Mathlib.Data.List.Infix

/-!
# Delimiters and the text behind them

A token ends at a delimiter, so what a longer text does to a token is decided by
what it does to the search for that delimiter. This module says what the searches
of `Text` and `Quote` find, and how they behave when text is added behind.

* `through?_eq_some_iff`: cutting through a delimiter gives the **shortest**
  beginning that ends with it.
* `through?_append` and `through?_of_append`: text behind the cut neither moves
  nor makes it.
* `cutEscaped_append` and `cutEscaped_of_append`: the same for a one-character
  quote, as long as the quote is closed.
-/

namespace CleanDiff

/-- A search for an item passes over everything that does not hold it. -/
theorem takeWhile_ne_append {α : Type} [DecidableEq α] {b : α} {l : List α} (h : b ∉ l)
    (rest : List α) :
    (l ++ rest).takeWhile (· ≠ b) = l ++ rest.takeWhile (· ≠ b) ∧
      (l ++ rest).dropWhile (· ≠ b) = rest.dropWhile (· ≠ b) := by
  have hpass : ∀ c ∈ l, decide (c ≠ b) = true := by
    intro c hc
    exact decide_eq_true (fun hcb => h (hcb ▸ hc))
  exact ⟨List.takeWhile_append_of_pos hpass, List.dropWhile_append_of_pos hpass⟩

namespace Text

/-! ### A leading delimiter -/

theorem after?_append {lead t rest : Text} (h : after? lead t = some rest) (v : Text) :
    after? lead (t ++ v) = some (rest ++ v) := by
  rw [after?_eq_some_iff] at h ⊢
  rw [h, List.append_assoc]

/-- A delimiter that a text does not begin with cannot begin it after text is added
behind, unless the whole text is a piece of the delimiter. A blank at the end of the
text rules that out. -/
theorem after?_append_eq_none {lead t : Text} (hlead : ∀ c ∈ lead, isBlank c = false)
    (hne : t ≠ []) (hblank : ∀ c ∈ t.getLast?, isBlank c = true)
    (h : after? lead t = none) (v : Text) : after? lead (t ++ v) = none := by
  rw [Option.eq_none_iff_forall_ne_some]
  intro rest hrest
  rw [after?_eq_some_iff, List.append_eq_append_iff] at hrest
  rcases hrest with ⟨more, hmore, -⟩ | ⟨more, hmore, -⟩
  · have hmem : t.getLast hne ∈ lead := by
      rw [hmore]
      exact List.mem_append_left _ (List.getLast_mem hne)
    have hlast := hblank _ (List.getLast?_eq_some_getLast hne)
    rw [hlead _ hmem] at hlast
    exact absurd hlast (by simp)
  · rw [after?_eq_some_iff.2 hmore] at h
    exact absurd h (by simp)

/-! ### The first occurrence of a delimiter -/

/-- `cut` is the shortest beginning of `t` that ends with `close`. -/
def FirstEnd (close t cut : Text) : Prop :=
  cut <+: t ∧ close <:+ cut ∧ ∀ b, b <+: t → close <:+ b → cut <+: b

theorem FirstEnd.unique {close t a b : Text} (ha : FirstEnd close t a)
    (hb : FirstEnd close t b) : a = b := by
  have hab := ha.2.2 b hb.1 hb.2.1
  have hba := hb.2.2 a ha.1 ha.2.1
  exact hab.eq_of_length (Nat.le_antisymm hab.length_le hba.length_le)

/-- A beginning that ends with a delimiter which does not stand at the front goes beyond
the first character, and ends with the delimiter without it. -/
theorem exists_cons_of_suffix {close t b : Text} {c : Char} (hnone : after? close (c :: t) = none)
    (hb : b <+: c :: t) (hend : close <:+ b) : ∃ b', b = c :: b' ∧ b' <+: t ∧ close <:+ b' := by
  cases b with
  | nil =>
      rw [List.suffix_nil.1 hend] at hnone
      exact absurd hnone (by simp [after?])
  | cons d b =>
      obtain ⟨rfl, hb'⟩ := List.cons_prefix_cons.1 hb
      rcases List.suffix_cons_iff.1 hend with hall | hend
      · obtain ⟨rest, hrest⟩ := hb
        rw [after?_eq_some_iff.2 (hall ▸ hrest.symm)] at hnone
        exact absurd hnone (by simp)
      · exact ⟨b, rfl, hb', hend⟩

theorem firstEnd_of_through? {close t : Text} {cut : Text × Text}
    (h : through? close t = some cut) : FirstEnd close t cut.1 := by
  induction t generalizing cut with
  | nil =>
      simp only [through?] at h
      split at h
      · next hclose =>
        cases h
        subst hclose
        exact ⟨List.prefix_refl _, List.suffix_refl _, fun b _ _ => List.nil_prefix⟩
      · exact absurd h (by simp)
  | cons c t ih =>
      simp only [through?] at h
      split at h
      · next rest hrest =>
        cases h
        have hclose : close <+: c :: t := ⟨rest, (after?_eq_some_iff.1 hrest).symm⟩
        refine ⟨hclose, List.suffix_refl _, ?_⟩
        intro b hb hsuffix
        exact List.prefix_of_prefix_length_le hclose hb hsuffix.length_le
      · next hnone =>
        obtain ⟨inner, hinner, rfl⟩ := Option.map_eq_some_iff.1 h
        obtain ⟨hbegin, hsuffix, hleast⟩ := ih hinner
        refine ⟨(List.prefix_cons_inj c).2 hbegin, hsuffix.trans (List.suffix_cons c _), ?_⟩
        intro b hb hend
        obtain ⟨b', rfl, hb', hend'⟩ := exists_cons_of_suffix hnone hb hend
        exact (List.prefix_cons_inj c).2 (hleast b' hb' hend')

theorem not_suffix_of_through?_eq_none {close t b : Text} (h : through? close t = none)
    (hb : b <+: t) : ¬ close <:+ b := by
  induction t generalizing b with
  | nil =>
      rw [List.prefix_nil.1 hb, List.suffix_nil]
      intro hclose
      simp [through?, hclose] at h
  | cons c t ih =>
      simp only [through?] at h
      split at h
      · exact absurd h (by simp)
      · next hnone =>
        intro hend
        obtain ⟨b', -, hb', hend'⟩ := exists_cons_of_suffix hnone hb hend
        exact ih (Option.map_eq_none_iff.1 h) hb' hend'

/-- Cutting through a delimiter gives the shortest beginning that ends with it, and
the rest. -/
theorem through?_eq_some_iff {close t : Text} {cut : Text × Text} :
    through? close t = some cut ↔ cut.1 ++ cut.2 = t ∧ FirstEnd close t cut.1 := by
  constructor
  · intro h
    exact ⟨append_of_through? h, firstEnd_of_through? h⟩
  · rintro ⟨happend, hfirst⟩
    cases hfound : through? close t with
    | none => exact absurd hfirst.2.1 (not_suffix_of_through?_eq_none hfound hfirst.1)
    | some found =>
        have hfst := (firstEnd_of_through? hfound).unique hfirst
        have hsnd := (append_of_through? hfound).trans happend.symm
        rw [hfst] at hsnd
        exact congrArg some (Prod.ext hfst (List.append_cancel_left hsnd))

/-- Text behind the first occurrence does not move it. -/
theorem through?_append {close t : Text} {cut : Text × Text} (h : through? close t = some cut)
    (v : Text) : through? close (t ++ v) = some (cut.1, cut.2 ++ v) := by
  obtain ⟨happend, hbegin, hsuffix, hleast⟩ := through?_eq_some_iff.1 h
  rw [through?_eq_some_iff]
  refine ⟨by rw [← happend, List.append_assoc], hbegin.trans (List.prefix_append t v), hsuffix, ?_⟩
  intro b hb hend
  rcases Nat.le_total b.length t.length with hle | hle
  · exact hleast b (List.prefix_of_prefix_length_le hb (List.prefix_append t v) hle) hend
  · exact hbegin.trans (List.prefix_of_prefix_length_le (List.prefix_append t v) hb hle)

/-- An occurrence that lies before the added text is there without it. -/
theorem through?_of_append {close t v a rest : Text}
    (h : through? close (t ++ v) = some (a, rest ++ v)) : through? close t = some (a, rest) := by
  obtain ⟨happend, -, hsuffix, hleast⟩ := through?_eq_some_iff.1 h
  have ht : a ++ rest = t := List.append_cancel_right ((List.append_assoc a rest v).trans happend)
  refine through?_eq_some_iff.2 ⟨ht, ⟨rest, ht⟩, hsuffix, ?_⟩
  intro b hb hend
  exact hleast b (hb.trans (List.prefix_append t v)) hend

theorem through?_eq_none_of_append {close t v : Text} (h : through? close (t ++ v) = none) :
    through? close t = none := by
  cases ht : through? close t with
  | none => rfl
  | some cut =>
      rw [through?_append ht] at h
      exact absurd h (by simp)

end Text

/-! ### The end of a literal with escapes -/

namespace Quote

theorem cutEscaped_escape (mark c : Char) (t : Text) :
    cutEscaped mark ('\\' :: c :: t) =
      ('\\' :: c :: (cutEscaped mark t).1, (cutEscaped mark t).2) := rfl

theorem cutEscaped_mark {mark : Char} (h : mark ≠ '\\') (t : Text) :
    cutEscaped mark (mark :: t) = ([mark], t) := by
  rw [cutEscaped] <;> simp [h]

theorem cutEscaped_other {mark c : Char} (hescape : c ≠ '\\') (hmark : c ≠ mark) (t : Text) :
    cutEscaped mark (c :: t) = (c :: (cutEscaped mark t).1, (cutEscaped mark t).2) := by
  rw [cutEscaped] <;> simp [hescape, hmark, Prod.map]

/-- The two patterns for a backslash, with and without a character behind it, leave no
backslash for the others. -/
theorem ne_backslash {c : Char} {t : Text} (h1 : c = '\\' → t = [] → False)
    (h2 : ∀ d rest, c = '\\' → t = d :: rest → False) : c ≠ '\\' := by
  intro hc
  cases t with
  | nil => exact h1 hc rfl
  | cons d rest => exact h2 d rest hc rfl

/-- Text behind a closed literal does not change where it ends. -/
theorem cutEscaped_append {mark : Char} {t : Text} (h : (cutEscaped mark t).2 ≠ []) (v : Text) :
    cutEscaped mark (t ++ v) = ((cutEscaped mark t).1, (cutEscaped mark t).2 ++ v) := by
  fun_induction cutEscaped mark t with
  | case1 => exact absurd rfl h
  | case2 => exact absurd rfl h
  | case3 c t ih =>
      rw [List.cons_append, List.cons_append, cutEscaped_escape, ih h]
      rfl
  | case4 t h1 h2 =>
      have hescape := ne_backslash h1 h2
      exact cutEscaped_mark hescape (t ++ v)
  | case5 c t h1 h2 hmark ih =>
      have hescape := ne_backslash h1 h2
      rw [List.cons_append, cutEscaped_other hescape hmark, ih h]
      rfl

/-- A literal that ends before the added text, or with it, ends there without it. -/
theorem cutEscaped_of_append {mark : Char} {t v a rest : Text} (ht : a ++ rest = t)
    (h : cutEscaped mark (t ++ v) = (a, rest ++ v)) : cutEscaped mark t = (a, rest) := by
  fun_induction cutEscaped mark t generalizing a with
  | case1 =>
      obtain ⟨rfl, rfl⟩ := List.append_eq_nil_iff.1 ht
      rfl
  | case2 =>
      cases v with
      | nil => simpa [cutEscaped] using h
      | cons c v =>
          -- The escape would take a character of the added text with it.
          rw [List.cons_append, List.nil_append, cutEscaped_escape] at h
          obtain ⟨rfl, -⟩ := Prod.mk.inj h
          simp at ht
  | case3 c t ih =>
      rw [List.cons_append, List.cons_append, cutEscaped_escape] at h
      obtain ⟨rfl, hrest⟩ := Prod.mk.inj h
      simp only [List.cons_append, List.cons.injEq, true_and] at ht
      have := ih ht (Prod.ext rfl hrest)
      simp [this]
  | case4 t h1 h2 =>
      have hescape := ne_backslash h1 h2
      rw [List.cons_append, cutEscaped_mark hescape] at h
      obtain ⟨rfl, hrest⟩ := Prod.mk.inj h
      rw [List.append_cancel_right hrest]
  | case5 c t h1 h2 hmark ih =>
      have hescape := ne_backslash h1 h2
      rw [List.cons_append, cutEscaped_other hescape hmark] at h
      obtain ⟨rfl, hrest⟩ := Prod.mk.inj h
      simp only [List.cons_append, List.cons.injEq, true_and] at ht
      have := ih ht (Prod.ext rfl hrest)
      simp [this]

end Quote

end CleanDiff
