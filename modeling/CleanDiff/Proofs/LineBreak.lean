import CleanDiff.Proofs.TokenCut

/-!
# Line breaks written in another way

Blank characters count for nothing in a signature, but in general they decide where a token
ends: a blank between `*` and `/` keeps a comment open, and a `\n` closes one. Around a line
break they decide nothing. Any run of blanks that holds a `\n` may be written as any other
such run, in plain text, behind a backslash, inside a literal or a comment, and **the
signature stays what it is** (`Reflowed.signature_eq`).

The proof follows the reader of tokens. Each search for the end of a token, made in two
texts that are reflowed into one another, takes pieces that differ by blanks only and leaves
rests that are reflowed into one another again (`SameCut`), because no delimiter holds a
blank and because the first `\n` of a gap ends a line comment wherever it stands.
-/

namespace CleanDiff

/-! ### Searches that find related things, or both nothing -/

section Related

variable {α β γ δ : Type} {R : α → β → Prop} {S : γ → δ → Prop}

theorem rel_cases {x : Option α} {y : Option β} (h : Option.Rel R x y) :
    (∃ a b, x = some a ∧ y = some b ∧ R a b) ∨ (x = none ∧ y = none) := by
  cases h with
  | some h => exact Or.inl ⟨_, _, rfl, rfl, h⟩
  | none => exact Or.inr ⟨rfl, rfl⟩

theorem rel_bind {x : Option α} {y : Option β} {f : α → Option γ} {f' : β → Option δ}
    (h : Option.Rel R x y) (hf : ∀ a b, R a b → Option.Rel S (f a) (f' b)) :
    Option.Rel S (x.bind f) (y.bind f') := by
  cases h with
  | some h => exact hf _ _ h
  | none => exact .none

theorem rel_map {x : Option α} {y : Option β} {f : α → γ} {f' : β → δ}
    (h : Option.Rel R x y) (hf : ∀ a b, R a b → S (f a) (f' b)) :
    Option.Rel S (x.map f) (y.map f') := by
  cases h with
  | some h => exact .some (hf _ _ h)
  | none => exact .none

theorem rel_or {x x' : Option α} {y y' : Option β} (h : Option.Rel R x y)
    (h' : Option.Rel R x' y') : Option.Rel R (x.or x') (y.or y') := by
  cases h with
  | some h => exact .some h
  | none => exact h'

theorem rel_findSome? {ε : Type} {es : List ε} {f : ε → Option α} {f' : ε → Option β}
    (h : ∀ e ∈ es, Option.Rel R (f e) (f' e)) :
    Option.Rel R (es.findSome? f) (es.findSome? f') := by
  induction es with
  | nil => exact .none
  | cons e es ih =>
      rw [List.forall_mem_cons] at h
      rcases rel_cases h.1 with ⟨a, b, hfound, hfound', hab⟩ | ⟨hnone, hnone'⟩
      · rw [List.findSome?_cons_of_isSome (by simp [hfound]), hfound,
          List.findSome?_cons_of_isSome (by simp [hfound']), hfound']
        exact .some hab
      · rw [List.findSome?_cons_of_isNone (by simp [hnone]),
          List.findSome?_cons_of_isNone (by simp [hnone'])]
        exact ih h.2

end Related

namespace Text

/-! ### Gaps -/

/-- A blank text that holds a line break. -/
structure Gap (b : Text) : Prop where
  blank : ∀ c ∈ b, isBlank c = true
  breaks : '\n' ∈ b

theorem gap_lf : Gap ['\n'] := ⟨List.forall_mem_singleton.2 (by decide), by simp⟩

/-- The second text is the first with some of its gaps written in another way. -/
inductive Reflowed : Text → Text → Prop
  | nil : Reflowed [] []
  | cons (c : Char) {t t' : Text} (h : Reflowed t t') : Reflowed (c :: t) (c :: t')
  | gap {b b' t t' : Text} (hb : Gap b) (hb' : Gap b') (h : Reflowed t t') :
      Reflowed (b ++ t) (b' ++ t')

theorem dropBlanks_eq_nil {b : Text} (h : ∀ c ∈ b, isBlank c = true) : dropBlanks b = [] := by
  simpa [dropBlanks] using h

theorem Gap.dropBlanks_eq {b b' : Text} (hb : Gap b) (hb' : Gap b') :
    dropBlanks b = dropBlanks b' := by
  rw [dropBlanks_eq_nil hb.blank, dropBlanks_eq_nil hb'.blank]

theorem Gap.exists_cons {b : Text} (h : Gap b) :
    ∃ c rest, b = c :: rest ∧ isBlank c = true ∧ ∀ d ∈ rest, isBlank d = true := by
  obtain ⟨c, rest, rfl⟩ := List.exists_cons_of_ne_nil (List.ne_nil_of_mem h.breaks)
  exact ⟨c, rest, rfl, List.forall_mem_cons.1 h.blank⟩

theorem Reflowed.dropBlanks_eq {t t' : Text} (h : Reflowed t t') :
    dropBlanks t = dropBlanks t' := by
  induction h with
  | nil => rfl
  | cons c _ ih => rw [← List.singleton_append, dropBlanks_append, ih, ← dropBlanks_append]; rfl
  | gap hb hb' _ ih => rw [dropBlanks_append, dropBlanks_append, hb.dropBlanks_eq hb', ih]

/-! ### Delimiters are not blank -/

/-- Not empty and without a blank character, as every delimiter is. -/
structure Solid (d : Text) : Prop where
  ne_nil : d ≠ []
  not_blank : ∀ c ∈ d, isBlank c = false

theorem Solid.after?_eq_none {d : Text} (hd : Solid d) {c : Char} (hc : isBlank c = true)
    (t : Text) : after? d (c :: t) = none := by
  obtain ⟨e, d, rfl⟩ := List.exists_cons_of_ne_nil hd.ne_nil
  have hne : e ≠ c := by
    rintro rfl
    rw [hd.not_blank e List.mem_cons_self] at hc
    exact absurd hc (by simp)
  rw [after?, if_neg hne]

/-- A delimiter is not found inside blanks, so the search for it passes over them. -/
theorem Solid.through?_blanks {d : Text} (hd : Solid d) {b : Text}
    (hb : ∀ c ∈ b, isBlank c = true) (t : Text) :
    through? d (b ++ t) = (through? d t).map fun cut => (b ++ cut.1, cut.2) := by
  induction b with
  | nil => simp
  | cons c b ih =>
      rw [List.forall_mem_cons] at hb
      rw [List.cons_append, through?, hd.after?_eq_none hb.1, ih hb.2, Option.map_map]
      rfl

/-! ### Searches in texts that are reflowed into one another -/

/-- What two cuts take differs by blanks only, and what they leave is reflowed. -/
structure SameCut (cut cut' : Text × Text) : Prop where
  taken : dropBlanks cut.1 = dropBlanks cut'.1
  left : Reflowed cut.2 cut'.2

theorem SameCut.prepend {a a' : Text} (ha : dropBlanks a = dropBlanks a') {cut cut' : Text × Text}
    (h : SameCut cut cut') : SameCut (a ++ cut.1, cut.2) (a' ++ cut'.1, cut'.2) where
  taken := by rw [dropBlanks_append, dropBlanks_append, ha, h.taken]
  left := h.left

theorem Reflowed.after? {lead t t' : Text} (h : Reflowed t t')
    (hlead : ∀ c ∈ lead, isBlank c = false) :
    Option.Rel Reflowed (after? lead t) (after? lead t') := by
  induction lead generalizing t t' with
  | nil => exact .some h
  | cons d lead ih =>
      have hsolid : Solid (d :: lead) := ⟨by simp, hlead⟩
      cases h with
      | nil => exact .none
      | cons c h =>
          rw [Text.after?, Text.after?]
          split
          · exact ih h (List.forall_mem_cons.1 hlead).2
          · exact .none
      | gap hb hb' h =>
          obtain ⟨c, b, rfl, hc, -⟩ := hb.exists_cons
          obtain ⟨c', b', rfl, hc', -⟩ := hb'.exists_cons
          rw [List.cons_append, List.cons_append, hsolid.after?_eq_none hc,
            hsolid.after?_eq_none hc']
          exact .none

theorem Reflowed.through? {close t t' : Text} (h : Reflowed t t') (hclose : Solid close) :
    Option.Rel SameCut (through? close t) (through? close t') := by
  induction h with
  | nil =>
      rw [Text.through?, if_neg hclose.ne_nil]
      exact .none
  | @cons c t t' h ih =>
      rw [Text.through?, Text.through?]
      rcases rel_cases ((Reflowed.cons c h).after? hclose.not_blank) with
        ⟨rest, rest', hfound, hfound', hrest⟩ | ⟨hnone, hnone'⟩
      · rw [hfound, hfound']
        exact .some ⟨rfl, hrest⟩
      · rw [hnone, hnone']
        exact rel_map ih fun cut cut' hcut => hcut.prepend (a := [c]) rfl
  | gap hb hb' _ ih =>
      rw [hclose.through?_blanks hb.blank, hclose.through?_blanks hb'.blank]
      exact rel_map ih fun cut cut' hcut => hcut.prepend (hb.dropBlanks_eq hb')

/-- The first `\n` of a gap ends a line comment, and what follows it is a gap again. -/
theorem Gap.cut_line {b : Text} (hb : Gap b) (t : Text) :
    ∃ lead rest, (∀ c ∈ lead, isBlank c = true) ∧ Gap rest ∧
      (b ++ t).takeWhile (· ≠ '\n') = lead ∧ (b ++ t).dropWhile (· ≠ '\n') = rest ++ t := by
  obtain ⟨lead, rest, rfl, hfirst⟩ := List.eq_append_cons_of_mem hb.breaks
  have hlead : ∀ c ∈ lead, decide (c ≠ '\n') = true := by
    intro c hc
    exact decide_eq_true (ne_of_mem_of_not_mem hc hfirst)
  have hblank := List.forall_mem_append.1 hb.blank
  refine ⟨lead, '\n' :: rest, hblank.1, ⟨hblank.2, List.mem_cons_self⟩, ?_, ?_⟩
  · rw [List.append_assoc, List.takeWhile_append_of_pos hlead]
    simp
  · rw [List.append_assoc, List.dropWhile_append_of_pos hlead]
    simp

theorem Reflowed.cut_line {t t' : Text} (h : Reflowed t t') :
    SameCut (t.takeWhile (· ≠ '\n'), t.dropWhile (· ≠ '\n'))
      (t'.takeWhile (· ≠ '\n'), t'.dropWhile (· ≠ '\n')) := by
  induction h with
  | nil => exact ⟨rfl, .nil⟩
  | @cons c t t' h ih =>
      by_cases hc : c = '\n'
      · subst hc
        exact ⟨rfl, .cons _ h⟩
      · simp only [List.takeWhile_cons, List.dropWhile_cons, ne_eq, hc, not_false_eq_true,
          decide_true]
        exact ih.prepend (a := [c]) rfl
  | @gap b b' t t' hb hb' h _ =>
      obtain ⟨lead, rest, hlead, hrest, htake, hdrop⟩ := hb.cut_line t
      obtain ⟨lead', rest', hlead', hrest', htake', hdrop'⟩ := hb'.cut_line t'
      rw [htake, hdrop, htake', hdrop']
      exact ⟨(dropBlanks_eq_nil hlead).trans (dropBlanks_eq_nil hlead').symm, .gap hrest hrest' h⟩

end Text

/-! ### The end of a literal with escapes -/

namespace Quote

theorem cutEscaped_blanks {mark : Char} (hmark : isBlank mark = false) {b : Text}
    (hb : ∀ c ∈ b, isBlank c = true) (t : Text) :
    cutEscaped mark (b ++ t) = (b ++ (cutEscaped mark t).1, (cutEscaped mark t).2) := by
  induction b with
  | nil => rfl
  | cons c b ih =>
      rw [List.forall_mem_cons] at hb
      have hescape : c ≠ '\\' := by
        rintro rfl
        exact absurd hb.1 (by decide)
      have hne : c ≠ mark := by
        rintro rfl
        rw [hmark] at hb
        exact absurd hb.1 (by simp)
      rw [List.cons_append, cutEscaped_other hescape hne, ih hb.2]
      rfl

/-- A backslash takes the first character of a gap with it and leaves blanks. -/
theorem cutEscaped_escape_gap {mark : Char} (hmark : isBlank mark = false) {b : Text}
    (hb : Text.Gap b) (t : Text) :
    cutEscaped mark ('\\' :: (b ++ t)) =
      ('\\' :: b ++ (cutEscaped mark t).1, (cutEscaped mark t).2) := by
  obtain ⟨c, b, rfl, -, hblank⟩ := hb.exists_cons
  rw [List.cons_append, cutEscaped_escape, cutEscaped_blanks hmark hblank]
  rfl

/-- Reading a literal to its end, with or without a backslash waiting for what it escapes. -/
theorem sameCut_cutEscaped {mark : Char} (hmark : isBlank mark = false) {t t' : Text}
    (h : Text.Reflowed t t') :
    Text.SameCut (cutEscaped mark t) (cutEscaped mark t') ∧
      Text.SameCut (cutEscaped mark ('\\' :: t)) (cutEscaped mark ('\\' :: t')) := by
  induction h with
  | nil => exact ⟨⟨rfl, .nil⟩, ⟨rfl, .nil⟩⟩
  | @cons c t t' h ih =>
      constructor
      · by_cases hescape : c = '\\'
        · rw [hescape]
          exact ih.2
        · by_cases hc : c = mark
          · subst hc
            rw [cutEscaped_mark hescape, cutEscaped_mark hescape]
            exact ⟨rfl, h⟩
          · rw [cutEscaped_other hescape hc, cutEscaped_other hescape hc]
            exact ih.1.prepend (a := [c]) rfl
      · rw [cutEscaped_escape, cutEscaped_escape]
        exact ih.1.prepend (a := ['\\', c]) rfl
  | @gap b b' t t' hb hb' h ih =>
      have hblank := hb.dropBlanks_eq hb'
      constructor
      · rw [cutEscaped_blanks hmark hb.blank, cutEscaped_blanks hmark hb'.blank]
        exact ih.1.prepend hblank
      · rw [cutEscaped_escape_gap hmark hb, cutEscaped_escape_gap hmark hb']
        apply ih.1.prepend
        rw [← List.singleton_append, Text.dropBlanks_append, hblank, ← Text.dropBlanks_append]
        rfl

end Quote

/-! ### One mark -/

namespace Mark

/-- The delimiter that ends a token of this mark, if it has one. -/
def closer? : Mark → Option Text
  | .quote q => some q.written
  | .block b => some b.closer
  | .line _ => none

theorem cut?_reflowed {m : Mark} (hclose : ∀ d ∈ m.closer?, Text.Solid d) {t t' : Text}
    (h : Text.Reflowed t t') : Option.Rel Text.SameCut (m.cut? t) (m.cut? t') := by
  cases m with
  | quote q =>
      have hsolid : Text.Solid q.written := hclose _ rfl
      cases q with
      | single mark =>
          have hmark : isBlank mark = false := hsolid.not_blank mark (by simp [Quote.written])
          exact .some (Quote.sameCut_cutEscaped hmark h).1
      | triple mark =>
          have hfall : Option.Rel Text.SameCut (some (t, [])) (some (t', [])) :=
            .some ⟨h.dropBlanks_eq, .nil⟩
          have hcut := rel_or (h.through? hsolid) hfall
          rwa [Option.or_some, Option.or_some] at hcut
  | block b =>
      apply rel_or (h.through? (hclose _ rfl))
      split
      · exact .none
      · exact .some ⟨h.dropBlanks_eq, .nil⟩
  | line marker => exact .some h.cut_line

/-- What two tokens leave of themselves differs by blanks only, and what follows them is
reflowed. -/
structure SameRead (found found' : Token × Text) : Prop where
  kept : Text.dropBlanks found.1.kept = Text.dropBlanks found'.1.kept
  left : Text.Reflowed found.2 found'.2

theorem dropBlanks_kept_token (m : Mark) {a a' : Text}
    (h : Text.dropBlanks a = Text.dropBlanks a') :
    Text.dropBlanks (m.token a).kept = Text.dropBlanks (m.token a').kept := by
  cases m with
  | quote q => exact h
  | block b => rfl
  | line marker => rfl

theorem read?_reflowed {m : Mark} (hopen : ∀ c ∈ m.opener, isBlank c = false)
    (hclose : ∀ d ∈ m.closer?, Text.Solid d) {t t' : Text} (h : Text.Reflowed t t') :
    Option.Rel SameRead (m.read? t) (m.read? t') := by
  apply rel_bind (h.after? hopen)
  intro body body' hbody
  apply rel_map (m.cut?_reflowed hclose hbody)
  intro cut cut' hcut
  refine ⟨m.dropBlanks_kept_token ?_, hcut.left⟩
  rw [Text.dropBlanks_append, Text.dropBlanks_append, hcut.taken]

end Mark

/-! ### The tokens of a text -/

namespace Grammar

theorem solid_opener {g : Grammar} {m : Mark} (hm : m ∈ g.marks) : Text.Solid m.opener where
  ne_nil := by
    revert m
    cases g <;> decide
  not_blank := not_isBlank_opener hm

theorem solid_closer {g : Grammar} {m : Mark} (hm : m ∈ g.marks) :
    ∀ d ∈ m.closer?, Text.Solid d := by
  have hall : (g.marks.all fun m => m.closer?.all fun d => d ≠ [] && d.all fun c => !isBlank c) =
      true := by
    cases g <;> decide
  intro d hd
  have hd := (Option.all_eq_true _ _).1 (List.all_eq_true.1 hall m hm) d hd
  have hsolid : d ≠ [] ∧ ∀ c ∈ d, isBlank c = false := by simpa using hd
  exact ⟨hsolid.1, hsolid.2⟩

theorem tokenAt?_reflowed (g : Grammar) {t t' : Text} (h : Text.Reflowed t t') :
    Option.Rel Mark.SameRead (g.tokenAt? t) (g.tokenAt? t') := by
  rw [tokenAt?_eq, tokenAt?_eq]
  apply rel_findSome?
  intro m hm
  exact m.read?_reflowed (not_isBlank_opener hm) (solid_closer hm) h

theorem withoutComments_cons_of_none {g : Grammar} {c : Char} {t : Text}
    (h : g.tokenAt? (c :: t) = none) : g.withoutComments (c :: t) = [c] ++ g.withoutComments t := by
  rw [withoutComments, tokens_of_tokenAt?_eq_none h, List.flatMap_cons]
  rfl

theorem withoutComments_of_some {g : Grammar} {t : Text} {found : Token × Text}
    (h : g.tokenAt? t = some found) :
    g.withoutComments t = found.1.kept ++ g.withoutComments found.2 := by
  rw [withoutComments, tokens_of_tokenAt? h, List.flatMap_cons]
  rfl

/-- Blanks between tokens are plain characters. -/
theorem withoutComments_blanks (g : Grammar) {b : Text} (hb : ∀ c ∈ b, isBlank c = true)
    (t : Text) : g.withoutComments (b ++ t) = b ++ g.withoutComments t := by
  induction b with
  | nil => rfl
  | cons c b ih =>
      rw [List.forall_mem_cons] at hb
      have hnone : g.tokenAt? (c :: (b ++ t)) = none := by
        rw [tokenAt?_eq, List.findSome?_eq_none_iff]
        intro m hm
        rw [Mark.read?, (solid_opener hm).after?_eq_none hb.1]
        rfl
      rw [List.cons_append, withoutComments_cons_of_none hnone, ih hb.2]
      rfl

theorem dropBlanks_withoutComments_eq (g : Grammar) {t t' : Text} (h : Text.Reflowed t t') :
    Text.dropBlanks (g.withoutComments t) = Text.dropBlanks (g.withoutComments t') := by
  -- On the length of the text, because a token may take any part of it.
  induction hn : t.length using Nat.strong_induction_on generalizing t t' with
  | _ n ih =>
      subst hn
      cases h with
      | nil => rfl
      | @cons c t t' h =>
          rcases rel_cases (g.tokenAt?_reflowed (.cons c h)) with
            ⟨found, found', hfound, hfound', hsame⟩ | ⟨hnone, hnone'⟩
          · rw [withoutComments_of_some hfound, withoutComments_of_some hfound',
              Text.dropBlanks_append, Text.dropBlanks_append, hsame.kept,
              ih _ (begins_of_tokenAt? hfound).length_lt hsame.left rfl]
          · rw [withoutComments_cons_of_none hnone, withoutComments_cons_of_none hnone',
              Text.dropBlanks_append, Text.dropBlanks_append, ih _ (Nat.lt_succ_self _) h rfl]
      | @gap b b' t t' hb hb' h =>
          have hlt : t.length < (b ++ t).length := by
            have := List.length_pos_iff.2 (List.ne_nil_of_mem hb.breaks)
            rw [List.length_append]
            omega
          rw [g.withoutComments_blanks hb.blank, g.withoutComments_blanks hb'.blank,
            Text.dropBlanks_append, Text.dropBlanks_append, hb.dropBlanks_eq hb', ih _ hlt h rfl]

end Grammar

/-- However the gaps of a text are written, its signature is the same. -/
theorem Text.Reflowed.signature_eq {t t' : Text} (h : Text.Reflowed t t')
    (profile : Option Grammar) : signature profile t = signature profile t' := by
  cases profile with
  | none => exact h.dropBlanks_eq
  | some g => exact g.dropBlanks_withoutComments_eq h

end CleanDiff
