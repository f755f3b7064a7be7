import CleanDiff.Proofs.Delimiter
import CleanDiff.Signature
import Mathlib.Data.List.Chain
import Mathlib.Data.List.TakeWhile

/-!
# Where a text may be cut

Tokens are found from left to right, so a text that is cut in two has the tokens of
its two parts only if no token lies across the cut. This module says when that is.

* `CutsAt g u v`: **no token of `u ++ v` lies across the place between them**. This is
  so exactly when the tokens of `u ++ v` are those of `u` and those of `v`
  (`cutsAt_iff`).
* `CutsAt.inner`: what stands between two such places may be read alone.

Both rest on one view of a grammar: a list of *marks*, each with an opener and a rule
for the end of its token, of which the first that reads a token wins. What a mark
reads changes with the text behind only if the token reaches the end of the text, if
the opener is cut off by it, or if the token has to be closed and is not.
-/

namespace CleanDiff

/-- Something that begins a token. -/
inductive Mark
  | quote (q : Quote)
  | block (b : Block)
  | line (marker : Text)
  deriving DecidableEq, Repr

namespace Mark

/-- The text a token of this mark begins with. -/
def opener : Mark → Text
  | .quote q => q.written
  | .block b => b.opener
  | .line marker => marker

/-- Has a token of this mark to be closed? -/
def mustClose : Mark → Bool
  | .block b => b.mustClose
  | _ => false

/-- The token of this mark with a given text. -/
def token : Mark → Text → Token
  | .quote _, t => .literal t
  | .block _, t => .comment t
  | .line _, t => .comment t

/-- Cut the rest of a token off the text behind its opener. -/
def cut? : Mark → Text → Option (Text × Text)
  | .quote q, body => some (q.cut body)
  | .block b, body =>
      (Text.through? b.closer body).or (if b.mustClose then none else some (body, []))
  | .line _, body => some (body.takeWhile (· ≠ '\n'), body.dropWhile (· ≠ '\n'))

/-- The token of this mark that begins a text, and what follows it. -/
def read? (m : Mark) (t : Text) : Option (Token × Text) :=
  (Text.after? m.opener t).bind fun body =>
    (m.cut? body).map fun cut => (m.token (m.opener ++ cut.1), cut.2)

@[simp] theorem text_token (m : Mark) (t : Text) : (m.token t).text = t := by
  cases m <;> rfl

/-! ### One mark, with and without text behind -/

theorem cut?_eq_some {m : Mark} (h : m.mustClose = false) (body : Text) :
    ∃ cut, m.cut? body = some cut := by
  cases m with
  | quote q => exact ⟨_, rfl⟩
  | line marker => exact ⟨_, rfl⟩
  | block b =>
      have hb : b.mustClose = false := h
      cases hcut : Text.through? b.closer body with
      | some cut => exact ⟨cut, by simp [cut?, hcut]⟩
      | none => exact ⟨(body, []), by simp [cut?, hcut, hb]⟩

theorem cut?_append {m : Mark} {body a rest : Text} (h : m.cut? body = some (a, rest))
    (hrest : rest ≠ []) (v : Text) : m.cut? (body ++ v) = some (a, rest ++ v) := by
  cases m with
  | quote q =>
      have hcut : q.cut body = (a, rest) := Option.some.inj h
      cases q with
      | single mark =>
          have hopen : (Quote.cutEscaped mark body).2 ≠ [] := by
            rw [show Quote.cutEscaped mark body = (a, rest) from hcut]
            exact hrest
          show some (Quote.cutEscaped mark (body ++ v)) = _
          rw [Quote.cutEscaped_append hopen, show Quote.cutEscaped mark body = (a, rest) from hcut]
      | triple mark =>
          simp only [Quote.cut] at hcut
          cases hfound : Text.through? [mark, mark, mark] body with
          | none =>
              rw [hfound] at hcut
              exact absurd (Prod.mk.inj hcut).2.symm hrest
          | some cut =>
              rw [hfound] at hcut
              simp [cut?, Quote.cut, Text.through?_append hfound,
                show cut = (a, rest) from hcut]
  | block b =>
      simp only [cut?] at h ⊢
      cases hfound : Text.through? b.closer body with
      | none =>
          rw [hfound, Option.none_or] at h
          split at h
          · exact absurd h (by simp)
          · exact absurd (Prod.mk.inj (Option.some.inj h)).2.symm hrest
      | some cut =>
          rw [hfound, Option.some_or] at h
          rw [Text.through?_append hfound, Option.some_or, Option.some.inj h]
  | line marker =>
      obtain ⟨rfl, rfl⟩ := Prod.mk.inj (Option.some.inj h)
      have hlt : (body.takeWhile (· ≠ '\n')).length ≠ body.length := by
        intro hlen
        have hall := congrArg List.length
          (List.takeWhile_append_dropWhile (p := (· ≠ '\n')) (l := body))
        rw [List.length_append, hlen] at hall
        exact hrest (List.length_eq_zero_iff.1 (by omega))
      simp only [cut?, List.takeWhile_append, List.dropWhile_append, if_neg hlt,
        List.isEmpty_iff, if_neg hrest]

theorem cut?_of_append {m : Mark} {body v a rest : Text} (hbody : a ++ rest = body)
    (h : m.cut? (body ++ v) = some (a, rest ++ v)) : m.cut? body = some (a, rest) := by
  cases m with
  | quote q =>
      have hcut : q.cut (body ++ v) = (a, rest ++ v) := Option.some.inj h
      cases q with
      | single mark => exact congrArg some (Quote.cutEscaped_of_append hbody hcut)
      | triple mark =>
          simp only [Quote.cut] at hcut
          cases hfound : Text.through? [mark, mark, mark] (body ++ v) with
          | none =>
              rw [hfound] at hcut
              obtain ⟨rfl, hnil⟩ := Prod.mk.inj hcut
              obtain ⟨rfl, rfl⟩ := List.append_eq_nil_iff.1 hnil.symm
              rw [List.append_nil] at hfound ⊢
              simp [cut?, Quote.cut, hfound]
          | some cut =>
              rw [hfound] at hcut
              have hcut : cut = (a, rest ++ v) := hcut
              rw [hcut] at hfound
              simp [cut?, Quote.cut, Text.through?_of_append hfound]
  | block b =>
      simp only [cut?] at h ⊢
      cases hfound : Text.through? b.closer (body ++ v) with
      | none =>
          rw [hfound, Option.none_or] at h
          split at h
          · exact absurd h (by simp)
          · next hclose =>
            obtain ⟨rfl, hnil⟩ := Prod.mk.inj (Option.some.inj h)
            obtain ⟨rfl, rfl⟩ := List.append_eq_nil_iff.1 hnil.symm
            rw [List.append_nil] at hfound ⊢
            rw [hfound, Option.none_or, if_neg hclose]
      | some cut =>
          rw [hfound, Option.some_or] at h
          rw [Option.some.inj h] at hfound
          rw [Text.through?_of_append hfound, Option.some_or]
  | line marker =>
      obtain ⟨htake, hdrop⟩ := Prod.mk.inj (Option.some.inj h)
      subst hbody
      -- The added text begins the rest of the line, or the line goes on into it.
      have hline : '\n' ∉ a := by
        intro hlf
        rw [← htake] at hlf
        simpa using List.mem_takeWhile_imp hlf
      have hstop : (rest ++ v).takeWhile (· ≠ '\n') = [] := by
        rw [List.append_assoc, (takeWhile_ne_append hline _).1] at htake
        simpa using htake
      have hrest : rest.takeWhile (· ≠ '\n') = [] := by
        cases rest with
        | nil => rfl
        | cons c rest => simpa [List.takeWhile_cons] using hstop
      have hdropped : rest.dropWhile (· ≠ '\n') = rest := by
        have := List.takeWhile_append_dropWhile (p := (· ≠ '\n')) (l := rest)
        rwa [hrest, List.nil_append] at this
      simp only [cut?]
      rw [(takeWhile_ne_append hline rest).1, (takeWhile_ne_append hline rest).2, hrest, hdropped,
        List.append_nil]

theorem cut?_eq_none_of_append {m : Mark} {body v : Text} (h : m.cut? (body ++ v) = none) :
    m.cut? body = none := by
  cases m with
  | quote q => exact absurd h (by simp [cut?])
  | line marker => exact absurd h (by simp [cut?])
  | block b =>
      simp only [cut?, Option.or_eq_none_iff] at h ⊢
      refine ⟨Text.through?_eq_none_of_append h.1, ?_⟩
      by_cases hb : b.mustClose = true
      · simp [hb]
      · exact absurd h.2 (by simp [hb])

theorem read?_eq_some_iff {m : Mark} {t rest : Text} {tok : Token} :
    m.read? t = some (tok, rest) ↔
      ∃ body a, t = m.opener ++ body ∧ m.cut? body = some (a, rest) ∧
        tok = m.token (m.opener ++ a) := by
  simp only [read?, Option.bind_eq_some_iff, Option.map_eq_some_iff, Text.after?_eq_some_iff]
  constructor
  · rintro ⟨body, rfl, ⟨a, b⟩, hcut, hfound⟩
    obtain ⟨rfl, rfl⟩ := Prod.mk.inj hfound
    exact ⟨body, a, rfl, hcut, rfl⟩
  · rintro ⟨body, a, rfl, hcut, rfl⟩
    exact ⟨body, rfl, (a, rest), hcut, rfl⟩

theorem read?_append {m : Mark} {u rest : Text} {tok : Token} (h : m.read? u = some (tok, rest))
    (hrest : rest ≠ []) (v : Text) : m.read? (u ++ v) = some (tok, rest ++ v) := by
  obtain ⟨body, a, rfl, hcut, rfl⟩ := read?_eq_some_iff.1 h
  exact read?_eq_some_iff.2
    ⟨body ++ v, a, List.append_assoc .., cut?_append hcut hrest v, rfl⟩

theorem read?_of_append {m : Mark} {u v rest : Text} {tok : Token} (hu : tok.text ++ rest = u)
    (h : m.read? (u ++ v) = some (tok, rest ++ v)) : m.read? u = some (tok, rest) := by
  obtain ⟨body, a, hbody, hcut, rfl⟩ := read?_eq_some_iff.1 h
  rw [text_token, List.append_assoc] at hu
  rw [← hu, List.append_assoc] at hbody
  rw [← List.append_cancel_left hbody] at hcut
  exact read?_eq_some_iff.2 ⟨a ++ rest, a, hu.symm, cut?_of_append rfl hcut, rfl⟩

theorem read?_eq_none_of_append {m : Mark} {u v : Text} (h : m.read? (u ++ v) = none) :
    m.read? u = none := by
  cases hbody : Text.after? m.opener u with
  | none => simp [read?, hbody]
  | some body =>
      simp only [read?, Text.after?_append hbody, Option.bind_some, Option.map_eq_none_iff] at h
      simp [read?, hbody, cut?_eq_none_of_append h]

end Mark

/-! ### The marks of a grammar -/

namespace Grammar

/-- Everything that begins a token of a grammar, the highest priority first. -/
def marks (g : Grammar) : List Mark :=
  g.quotes.map .quote ++ (g.blocks.map .block ++ g.lineMarkers.map .line)

theorem tokenAt?_eq (g : Grammar) (t : Text) : g.tokenAt? t = g.marks.findSome? (·.read? t) := by
  have hquote : ∀ q : Quote, q.literal? t = (Mark.quote q).read? t := by
    intro q
    cases h : Text.after? q.written t <;>
      simp [Quote.literal?, Mark.read?, Mark.opener, Mark.cut?, Mark.token, h]
  have hblock : ∀ b : Block, b.comment? t = (Mark.block b).read? t := by
    intro b
    cases h : Text.after? b.opener t with
    | none => simp [Block.comment?, Mark.read?, Mark.opener, h]
    | some body =>
        cases hcut : Text.through? b.closer body <;> cases hclose : b.mustClose <;>
          simp [Block.comment?, Mark.read?, Mark.opener, Mark.cut?, Mark.token, h, hcut, hclose]
  have hline : ∀ m : Text, lineComment? m t = (Mark.line m).read? t := by
    intro m
    cases h : Text.after? m t <;>
      simp [lineComment?, Mark.read?, Mark.opener, Mark.cut?, Mark.token, h]
  simp only [tokenAt?, marks, List.findSome?_append, List.findSome?_map, Function.comp_def,
    hquote, hblock, hline]

theorem not_isBlank_opener {g : Grammar} {m : Mark} (hm : m ∈ g.marks) :
    ∀ c ∈ m.opener, isBlank c = false := by
  have hall : (g.marks.all fun m => m.opener.all fun c => !isBlank c) = true := by
    cases g <;> decide
  intro c hc
  simpa using List.all_eq_true.1 (List.all_eq_true.1 hall m hm) c hc

/-- Only one mark has to be closed: the wrapper around a block comment. -/
theorem eq_wrapper_of_mustClose {g : Grammar} {m : Mark} (hm : m ∈ g.marks)
    (h : m.mustClose = true) :
    g = .jsx ∧ m = .block ⟨['{', '/', '*'], ['*', '/', '}'], true⟩ := by
  revert m
  cases g <;> decide

/-! ### The tokens of a text, one at a time -/

theorem tokens_of_tokenAt? {g : Grammar} {t : Text} {found : Token × Text}
    (h : g.tokenAt? t = some found) : g.tokens t = found.1 :: g.tokens found.2 := by
  cases t with
  | nil => exact absurd (begins_of_tokenAt? h).length_lt (by simp)
  | cons c rest =>
      rw [tokens]
      split
      · next found' h' =>
        rw [h] at h'
        rw [Option.some.inj h']
      · next h' =>
        rw [h] at h'
        exact absurd h' (by simp)

theorem tokens_of_tokenAt?_eq_none {g : Grammar} {c : Char} {t : Text}
    (h : g.tokenAt? (c :: t) = none) : g.tokens (c :: t) = .plain c :: g.tokens t := by
  rw [tokens]
  split
  · next found h' =>
    rw [h] at h'
    exact absurd h' (by simp)
  · rfl

@[simp] theorem tokens_nil (g : Grammar) : g.tokens [] = [] := by rw [tokens]

theorem tokens_eq_nil_iff {g : Grammar} {t : Text} : g.tokens t = [] ↔ t = [] := by
  constructor
  · intro h
    rw [← g.tokens_flatten t, h]
    rfl
  · rintro rfl
    exact g.tokens_nil

/-- What a grammar reads in a text it also reads in the text without what follows,
if the token ends before that. -/
theorem tokenAt?_of_append {g : Grammar} {u v rest : Text} {tok : Token}
    (hu : tok.text ++ rest = u) (h : g.tokenAt? (u ++ v) = some (tok, rest ++ v)) :
    g.tokenAt? u = some (tok, rest) := by
  rw [tokenAt?_eq, List.findSome?_eq_some_iff] at h ⊢
  obtain ⟨before, m, after, hmarks, hm, hbefore⟩ := h
  refine ⟨before, m, after, hmarks, Mark.read?_of_append hu hm, ?_⟩
  intro m' hm'
  exact Mark.read?_eq_none_of_append (hbefore m' hm')

theorem tokenAt?_eq_none_of_append {g : Grammar} {u v : Text} (h : g.tokenAt? (u ++ v) = none) :
    g.tokenAt? u = none := by
  rw [tokenAt?_eq, List.findSome?_eq_none_iff] at h ⊢
  intro m hm
  exact Mark.read?_eq_none_of_append (h m hm)

/-! ### Cuts that no token lies across -/

/-- No token of `u ++ v` lies across the place between `u` and `v`. -/
def CutsAt (g : Grammar) (u v : Text) : Prop :=
  ∃ before after, g.tokens (u ++ v) = before ++ after ∧ before.flatMap Token.text = u

/-- The tokens in front of a cut are the tokens of the text in front of it: nothing a
mark reads hangs on text behind the end of its token. -/
theorem tokens_split {g : Grammar} {u v : Text} {before after : List Token}
    (htokens : g.tokens (u ++ v) = before ++ after) (hu : before.flatMap Token.text = u) :
    before = g.tokens u ∧ after = g.tokens v := by
  -- One token at a time: the first one of the whole text ends before the cut, so it is
  -- also the first one of `u`, and the cut is where it was for the tokens behind it.
  induction before generalizing u with
  | nil =>
      rw [← hu] at htokens ⊢
      exact ⟨g.tokens_nil.symm, htokens.symm⟩
  | cons tok before ih =>
      rw [List.flatMap_cons] at hu
      cases hread : g.tokenAt? (u ++ v) with
      | some found =>
          obtain ⟨tok', rest⟩ := found
          rw [tokens_of_tokenAt? hread, List.cons_append, List.cons.injEq] at htokens
          obtain ⟨rfl, htokens⟩ := htokens
          have hrest : rest = before.flatMap Token.text ++ v := by
            have := (begins_of_tokenAt? hread).1
            rw [← hu, List.append_assoc] at this
            exact List.append_cancel_left this
          rw [hrest] at hread htokens
          obtain ⟨hbefore, hafter⟩ := ih htokens rfl
          rw [tokens_of_tokenAt? (tokenAt?_of_append hu hread), ← hbefore]
          exact ⟨rfl, hafter⟩
      | none =>
          cases hall : u ++ v with
          | nil => exact absurd htokens (by simp [hall])
          | cons c rest =>
              rw [hall] at hread htokens
              rw [tokens_of_tokenAt?_eq_none hread, List.cons_append, List.cons.injEq] at htokens
              obtain ⟨rfl, htokens⟩ := htokens
              have hrest : rest = before.flatMap Token.text ++ v := by
                rw [← hu] at hall
                exact (List.cons.inj hall).2.symm
              rw [hrest] at htokens
              obtain ⟨hbefore, hafter⟩ := ih htokens rfl
              have hnone : g.tokenAt? (c :: before.flatMap Token.text) = none :=
                tokenAt?_eq_none_of_append (v := v) (by rw [List.cons_append, ← hrest]; exact hread)
              rw [← hu, show (Token.plain c).text = [c] from rfl, List.singleton_append,
                tokens_of_tokenAt?_eq_none hnone, ← hbefore]
              exact ⟨rfl, hafter⟩

/-- A cut lies between tokens exactly when the tokens of the two parts are the tokens of
the whole. -/
theorem cutsAt_iff {g : Grammar} {u v : Text} :
    g.CutsAt u v ↔ g.tokens (u ++ v) = g.tokens u ++ g.tokens v := by
  constructor
  · rintro ⟨before, after, htokens, hu⟩
    obtain ⟨hbefore, hafter⟩ := tokens_split htokens hu
    rw [htokens, hbefore, hafter]
  · intro h
    exact ⟨g.tokens u, g.tokens v, h, g.tokens_flatten u⟩

instance (g : Grammar) (u v : Text) : Decidable (g.CutsAt u v) :=
  decidable_of_iff _ cutsAt_iff.symm

/-- A text between two cuts may be read alone. -/
theorem CutsAt.inner {g : Grammar} {u m v : Text} (hleft : g.CutsAt u (m ++ v))
    (hright : g.CutsAt (u ++ m) v) : g.CutsAt m v := by
  have hsame : g.tokens u ++ g.tokens (m ++ v) = g.tokens (u ++ m) ++ g.tokens v := by
    rw [← cutsAt_iff.1 hleft, ← cutsAt_iff.1 hright, List.append_assoc]
  rcases List.append_eq_append_iff.1 hsame with ⟨inner, hinner, hrest⟩ | ⟨shared, hshared, hrest⟩
  · refine ⟨inner, g.tokens v, hrest, ?_⟩
    have htext := congrArg (List.flatMap Token.text) hinner
    rw [List.flatMap_append, g.tokens_flatten, g.tokens_flatten] at htext
    exact (List.append_cancel_left htext).symm
  · -- The two cuts are one and the same, with nothing between them.
    have htext := congrArg (List.flatMap Token.text) hshared
    rw [List.flatMap_append, g.tokens_flatten, g.tokens_flatten, List.append_assoc] at htext
    have hm : m = [] := by
      have hlength := congrArg List.length htext
      simp only [List.length_append] at hlength
      exact List.length_eq_zero_iff.1 (by omega)
    exact cutsAt_iff.2 (by simp [hm])

theorem CutsAt.withoutComments_append {g : Grammar} {u v : Text} (h : g.CutsAt u v) :
    g.withoutComments (u ++ v) = g.withoutComments u ++ g.withoutComments v := by
  rw [withoutComments, cutsAt_iff.1 h, List.flatMap_append]
  rfl

end Grammar

end CleanDiff
