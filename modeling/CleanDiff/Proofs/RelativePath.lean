import CleanDiff.Path
import Mathlib.Data.List.DropRight

/-!
# Paths seen from a base

**Seeing a path from a base and joining a path to it undo each other**, and both go by whole
components: `relativeTo?_inverts_join`. A base counts without the slashes at its end, which is
its *stem*. Below a stem lies the stem itself and what follows it behind a slash, and nothing
else: `/work/repository` does not lie below `/work/repo`.

All of it rests on one equivalence (`relativeTo?_eq_some_iff`), which takes a path apart at the
stem. It needs that no path holds a backslash, so that what is left of a path is not changed by
being read as a path again. That is so of every path made by the operations of this library
(`made_iff`).
-/

namespace CleanDiff

namespace Path

/-! ### Slashes -/

theorem not_mem_forwardSlashes (t : Text) : '\\' ∉ forwardSlashes t := by
  intro h
  obtain ⟨c, -, hc⟩ := List.mem_map.1 h
  split at hc
  · exact absurd hc (by decide)
  · next hne => exact hne hc

/-- A text without backslashes is read as it is. -/
theorem forwardSlashes_of_not_mem {t : Text} (h : '\\' ∉ t) : forwardSlashes t = t := by
  have hsame : ∀ c ∈ t, (if c = '\\' then '/' else c) = c := by
    rintro c hc
    rw [if_neg]
    rintro rfl
    exact h hc
  rw [forwardSlashes, List.map_congr_left hsame, List.map_id']

/-- The path without the slashes at its end. -/
def stem (p : Path) : Text := dropEndSlashes p.text

/-- The slashes at the end are all that a stem lacks. -/
theorem exists_eq_stem_append (p : Path) :
    ∃ slashes : Text, (∀ c ∈ slashes, c = '/') ∧ p.text = p.stem ++ slashes := by
  refine ⟨p.text.rtakeWhile (· = '/'), fun c hc => ?_, ?_⟩
  · simpa using List.mem_rtakeWhile_imp hc
  · exact List.rdropWhile_append_rtakeWhile.symm

theorem getLast_stem {p : Path} (h : p.stem ≠ []) : p.stem.getLast h ≠ '/' := by
  have hlast : ¬ decide (p.stem.getLast h = '/') = true := List.rdropWhile_last_not _ _ h
  simpa using hlast

/-- Slashes at the end do not change a stem. -/
theorem dropEndSlashes_append (t : Text) {slashes : Text} (h : ∀ c ∈ slashes, c = '/') :
    dropEndSlashes (t ++ slashes) = dropEndSlashes t := by
  induction slashes generalizing t with
  | nil => rw [List.append_nil]
  | cons c slashes ih =>
      have hc : c = '/' := h c List.mem_cons_self
      rw [List.append_cons, ih (t ++ [c]) fun c' hc' => h c' (List.mem_cons_of_mem c hc')]
      exact List.rdropWhile_concat_pos _ _ _ (by simpa using hc)

/-- What stands in front of a stem makes it no shorter. -/
theorem dropEndSlashes_append_stem (t : Text) {c : Path} (h : c.stem ≠ []) :
    dropEndSlashes (t ++ c.text) = t ++ c.stem := by
  obtain ⟨slashes, hslashes, htext⟩ := c.exists_eq_stem_append
  rw [htext, ← List.append_assoc, dropEndSlashes_append _ hslashes]
  show List.rdropWhile _ (t ++ c.stem) = _
  rw [List.rdropWhile_eq_self_iff]
  intro hne
  rw [List.getLast_append_of_ne_nil hne h]
  simpa using getLast_stem h

theorem stem_ne_nil_iff {p : Path} : p.stem ≠ [] ↔ ∃ c ∈ p.text, c ≠ '/' := by
  have hnil : p.stem = [] ↔ ∀ c ∈ p.text, decide (c = '/') = true := List.rdropWhile_eq_nil_iff
  rw [Ne, hnil]
  simp

/-! ### Paths made by the library -/

/-- The paths that come from written text: read, joined, or seen from a base. -/
inductive Made : Path → Prop
  | ofText (t : Text) : Made (.ofText t)
  | join {p : Path} (hp : Made p) (segment : Text) : Made (p.join segment)
  | relative {p base r : Path} (hp : Made p) (hbase : Made base)
      (h : p.relativeTo? base = some r) : Made r

/-- A path that is joined is the base, perhaps a slash, and the segment read as a path. -/
theorem text_join (p : Path) (segment : Text) :
    ∃ slash : Text, (slash = [] ∨ slash = ['/']) ∧
      (p.join segment).text = p.text ++ slash ++ forwardSlashes segment := by
  unfold join
  split
  · next hempty => exact ⟨[], Or.inl rfl, by rw [hempty]; rfl⟩
  · split
    · exact ⟨[], Or.inl rfl, by rw [List.append_nil]⟩
    · exact ⟨['/'], Or.inr rfl, by rw [List.append_assoc]; rfl⟩

/-- A path is taken apart at the stem of the base. -/
theorem relativeTo?_eq (p base : Path) :
    p.relativeTo? base =
      match Text.after? base.stem p.text with
      | none => none
      | some rest =>
          if base.stem = [] then some (ofText (rest.dropWhile (· = '/')))
          else
            match rest with
            | [] => some ⟨[]⟩
            | '/' :: inner => some (ofText inner)
            | _ => none := rfl

/-- What is seen from a base is read as a path, or empty. -/
theorem not_mem_of_relativeTo? {p base r : Path} (h : p.relativeTo? base = some r) :
    '\\' ∉ r.text := by
  rw [relativeTo?_eq] at h
  split at h
  · exact absurd h (by simp)
  · split at h
    · obtain rfl := Option.some.inj h
      exact not_mem_forwardSlashes _
    · split at h
      · obtain rfl := Option.some.inj h
        exact List.not_mem_nil
      · obtain rfl := Option.some.inj h
        exact not_mem_forwardSlashes _
      · exact absurd h (by simp)

/-- The paths made by the library are those without a backslash. -/
theorem made_iff {p : Path} : p.Made ↔ '\\' ∉ p.text := by
  constructor
  · intro h
    induction h with
    | ofText t => exact not_mem_forwardSlashes t
    | @join p _ segment ih =>
        obtain ⟨slash, hslash, htext⟩ := p.text_join segment
        have hmid : '\\' ∉ slash := by rcases hslash with rfl | rfl <;> decide
        rw [htext]
        simp [ih, hmid, not_mem_forwardSlashes]
    | relative _ _ h => exact not_mem_of_relativeTo? h
  · intro h
    have hsame : ofText p.text = p := congrArg Path.mk (forwardSlashes_of_not_mem h)
    exact hsame ▸ Made.ofText p.text

/-! ### A path seen from a base -/

section Base

variable {p base : Path}

/-- Below a stem lie the stem and what follows it behind a slash. -/
theorem relativeTo?_eq_some_iff (hp : '\\' ∉ p.text) (hbase : base.stem ≠ []) {r : Path} :
    p.relativeTo? base = some r ↔
      p.text = base.stem ∧ r.text = [] ∨ p.text = base.stem ++ '/' :: r.text := by
  rw [relativeTo?_eq]
  cases hafter : Text.after? base.stem p.text with
  | none =>
      -- The path does not even begin with the stem.
      have hnot : ∀ rest, p.text ≠ base.stem ++ rest := fun rest hrest =>
        absurd (Text.after?_eq_some_iff.2 hrest) (by simp [hafter])
      have hne : p.text ≠ base.stem := fun h => hnot [] (h.trans (List.append_nil _).symm)
      simp [hne, hnot]
  | some rest =>
      have htext : p.text = base.stem ++ rest := Text.after?_eq_some_iff.1 hafter
      rw [htext, List.mem_append, not_or] at hp
      rw [htext]
      simp only [if_neg hbase]
      cases rest with
      | nil => cases r; simp [eq_comm]
      | cons c inner =>
          by_cases hc : c = '/'
          · subst hc
            have hinner : '\\' ∉ inner := fun h => hp.2 (List.mem_cons_of_mem _ h)
            cases r
            simp [ofText, forwardSlashes_of_not_mem hinner]
          · simp [hc]

/-- From a base of slashes alone a path is seen without the slashes in front of it. -/
theorem relativeTo?_of_stem_eq_nil (hp : '\\' ∉ p.text) (hbase : base.stem = []) :
    p.relativeTo? base = some ⟨p.text.dropWhile (· = '/')⟩ := by
  have hrest : '\\' ∉ p.text.dropWhile (· = '/') := fun h => hp ((List.dropWhile_sublist _).mem h)
  rw [relativeTo?_eq, hbase]
  simp only [Text.after?, if_pos, ofText, forwardSlashes_of_not_mem hrest]

/-- A path that goes on behind the stem without a slash lies elsewhere. -/
theorem relativeTo?_eq_none_of_sibling (hp : '\\' ∉ p.text) (hbase : base.stem ≠ []) {t : Text}
    (htext : p.text = base.stem ++ t) (hne : t ≠ []) (hhead : t.head? ≠ some '/') :
    p.relativeTo? base = none := by
  rw [Option.eq_none_iff_forall_ne_some]
  intro r hr
  rcases (relativeTo?_eq_some_iff hp hbase).1 hr with ⟨hstem, -⟩ | hbelow
  · exact hne (List.append_right_eq_self.1 (htext.symm.trans hstem))
  · rw [List.append_cancel_left (htext.symm.trans hbelow)] at hhead
    exact hhead rfl

end Base

/-! ### Joining and seeing -/

/-- Has the path no slash at its end, or one? -/
def OneEndSlash (p : Path) : Prop := p.text = p.stem ∨ p.text = p.stem ++ ['/']

/-- To a base with a stem a segment is joined by exactly one slash. -/
theorem text_join_of_stem {base : Path} (hend : base.OneEndSlash) (hstem : base.stem ≠ [])
    (segment : Text) :
    (base.join segment).text = base.stem ++ '/' :: forwardSlashes segment := by
  unfold join
  rcases hend with hbare | hslash
  · have hlast : base.text.getLast? ≠ some '/' := by
      rw [hbare, List.getLast?_eq_some_getLast hstem]
      simpa using getLast_stem hstem
    rw [if_neg (hbare ▸ hstem), if_neg hlast]
    show base.text ++ _ = _
    rw [hbare]
  · rw [if_neg (by simp [hslash]), if_pos (by simp [hslash])]
    show base.text ++ _ = _
    rw [hslash, List.append_assoc]
    rfl

/-- A segment that does not begin with a separator is seen from the base as it was joined. -/
theorem relativeTo?_join {base : Path} (hbase : '\\' ∉ base.text) (hend : base.OneEndSlash)
    {segment : Text} (hslash : segment.head? ≠ some '/') (hbackslash : segment.head? ≠ some '\\') :
    (base.join segment).relativeTo? base = some (ofText segment) := by
  have hmade : '\\' ∉ (base.join segment).text := made_iff.1 ((made_iff.2 hbase).join segment)
  by_cases hstem : base.stem = []
  · rw [relativeTo?_of_stem_eq_nil hmade hstem]
    -- The base is empty or the root, so slashes are all that stands in front of the segment.
    have hfront : (base.join segment).text.dropWhile (· = '/') = forwardSlashes segment := by
      have hsegment : (forwardSlashes segment).dropWhile (· = '/') = forwardSlashes segment := by
        cases segment with
        | nil => rfl
        | cons c rest =>
            have hc : c ≠ '/' ∧ c ≠ '\\' := by simpa using And.intro hslash hbackslash
            simp [forwardSlashes, hc.1, hc.2]
      rcases hend with hbare | hroot
      · rw [hstem] at hbare
        simpa [join, hbare, ofText] using hsegment
      · rw [hstem] at hroot
        simpa [join, hroot] using hsegment
    rw [hfront]
    rfl
  · rw [relativeTo?_eq_some_iff hmade hstem]
    exact Or.inr (text_join_of_stem hend hstem segment)

/-- Seeing a path from a base, and what is seen from a second one, is seeing the path from the
second base joined to the first. -/
theorem relativeTo?_trans {p base c r q : Path} (hp : '\\' ∉ p.text) (hend : base.OneEndSlash)
    (hstem : base.stem ≠ []) (hc : c.stem ≠ []) (hr : p.relativeTo? base = some r)
    (hq : r.relativeTo? c = some q) : p.relativeTo? (base.join c.text) = some q := by
  have hrelative : r.text = c.stem ∧ q.text = [] ∨ r.text = c.stem ++ '/' :: q.text :=
    (relativeTo?_eq_some_iff (not_mem_of_relativeTo? hr) hc).1 hq
  have hbackslash : '\\' ∉ c.text := by
    obtain ⟨slashes, hslashes, htext⟩ := c.exists_eq_stem_append
    have hseen : '\\' ∉ c.stem := by
      have hmade := not_mem_of_relativeTo? hr
      rcases hrelative with ⟨hwhole, -⟩ | hbelow
      · rwa [hwhole] at hmade
      · rw [hbelow, List.mem_append, not_or] at hmade
        exact hmade.1
    rw [htext, List.mem_append, not_or]
    exact ⟨hseen, fun h => absurd (hslashes _ h) (by decide)⟩
  have hjoined : (base.join c.text).stem = base.stem ++ '/' :: c.stem := by
    rw [stem, text_join_of_stem hend hstem, forwardSlashes_of_not_mem hbackslash, List.append_cons,
      dropEndSlashes_append_stem _ hc, List.append_assoc]
    rfl
  have hne : (base.join c.text).stem ≠ [] := by simp [hjoined]
  rw [relativeTo?_eq_some_iff hp hne, hjoined]
  rcases (relativeTo?_eq_some_iff hp hstem).1 hr with ⟨-, hempty⟩ | hbelow
  · -- The path is the base, from which nothing is seen that could have a component of its own.
    rw [hempty] at hrelative
    rcases hrelative with ⟨hnil, -⟩ | hcons
    · exact absurd hnil.symm hc
    · exact absurd hcons (by simp)
  · rcases hrelative with ⟨hwhole, hend⟩ | hdeeper
    · exact Or.inl ⟨by rw [hbelow, hwhole], hend⟩
    · refine Or.inr ?_
      rw [hbelow, hdeeper, List.append_assoc]
      rfl

/-- **Seeing and joining go by components and undo each other.** For paths made by the library,
which hold no backslash:

* below a base with a stem lie the stem itself and what follows it behind a slash, and no sibling
  whose name only begins like its last component; from a base of slashes alone a path is seen
  without the slashes in front of it;
* what is joined to a base with at most one slash at its end is seen from it as it was joined;
* two bases one after the other are one base. -/
theorem relativeTo?_inverts_join {p base : Path} (hp : p.Made) (hbase : base.Made) :
    ('\\' ∉ p.text ∧ '\\' ∉ base.text) ∧
    (base.stem ≠ [] → ∀ r, p.relativeTo? base = some r ↔
      p.text = base.stem ∧ r.text = [] ∨ p.text = base.stem ++ '/' :: r.text) ∧
    (base.stem ≠ [] → ∀ t, p.text = base.stem ++ t → t ≠ [] → t.head? ≠ some '/' →
      p.relativeTo? base = none) ∧
    (base.stem = [] → p.relativeTo? base = some ⟨p.text.dropWhile (· = '/')⟩) ∧
    (base.OneEndSlash → ∀ s : Text, s.head? ≠ some '/' → s.head? ≠ some '\\' →
      (base.join s).relativeTo? base = some (ofText s)) ∧
    (base.OneEndSlash → base.stem ≠ [] → ∀ c r q : Path, (∃ x ∈ c.text, x ≠ '/') →
      p.relativeTo? base = some r → r.relativeTo? c = some q →
      p.relativeTo? (base.join c.text) = some q) := by
  have hp := made_iff.1 hp
  have hbase := made_iff.1 hbase
  refine ⟨⟨hp, hbase⟩, ?_, ?_, ?_, ?_, ?_⟩
  · exact fun hstem r => relativeTo?_eq_some_iff hp hstem
  · exact fun hstem t => relativeTo?_eq_none_of_sibling hp hstem
  · exact relativeTo?_of_stem_eq_nil hp
  · exact fun hend s => relativeTo?_join hbase hend
  · intro hend hstem c r q hc
    exact relativeTo?_trans hp hend hstem (stem_ne_nil_iff.2 hc)

/-- A base that is written with a slash at its end: a path with two slashes behind it is seen
from a second base with slashes on both sides, and a sibling whose name goes on is refused. -/
theorem relativeTo?_inverts_join_of_end_slash :
    (ofString "/work/repo//src/a.py").Made ∧ (ofString "\\work\\repo/").Made ∧
    (ofString "/work/repo//src/a.py").relativeTo? (ofString "\\work\\repo/") =
      some (ofString "/src/a.py") ∧
    (ofString "/work/repo//src/a.py").relativeTo?
        ((ofString "\\work\\repo/").join "/src/".toList) = some (ofString "a.py") ∧
    (ofString "/work/repository/a.py").relativeTo? (ofString "\\work\\repo/") = none := by
  have hend : (ofString "\\work\\repo/").OneEndSlash := Or.inr (by decide)
  have hstem : (ofString "\\work\\repo/").stem ≠ [] := by decide
  have hinside := relativeTo?_inverts_join (.ofText "/work/repo//src/a.py".toList)
    (.ofText "\\work\\repo/".toList)
  have hseen : (ofString "/work/repo//src/a.py").relativeTo? (ofString "\\work\\repo/") =
      some (ofString "/src/a.py") := (hinside.2.1 hstem _).2 (Or.inr (by decide))
  have hsibling := relativeTo?_inverts_join (.ofText "/work/repository/a.py".toList)
    (.ofText "\\work\\repo/".toList)
  have hsegment : ∃ x ∈ (ofString "/src/").text, x ≠ '/' := ⟨'s', by decide, by decide⟩
  refine ⟨.ofText _, .ofText _, hseen, ?_, ?_⟩
  · exact hinside.2.2.2.2.2 hend hstem (ofString "/src/") _ _ hsegment hseen (by decide)
  · exact hsibling.2.2.1 hstem "sitory/a.py".toList (by decide) (by decide) (by decide)

end Path

end CleanDiff
