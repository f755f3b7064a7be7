import CleanDiff.Proofs.Neutral

/-!
# Complete literals and comments

A literal or comment that is written to its end is read as one token, whatever it holds and
whatever follows it. Behind a neutral text this gives

* `withoutComments_literal`: **a literal is kept as it is written**; comment markers, other
  quotes and line breaks in it are inert;
* `signature_comment`: **a comment put into a text is noise**, and so is one taken out.

Both are one argument (`tokens_of_cut?`). Behind its opener a complete token is cut off at its
own end, and no mark of a higher priority takes the text away from it, because the openers of
two marks never begin one text (`pairwise_marks`). The one exception is a triple quote, which
begins with the one-character quote; this is why a literal in one-character quotes must not be
empty.
-/

namespace CleanDiff

/-! ### What is complete -/

namespace Quote

/-- Text inside a literal with escapes: characters other than the quote and the backslash,
and characters of any kind behind a backslash. -/
inductive Units (mark : Char) : Text → Prop
  | nil : Units mark []
  | plain {c : Char} {t : Text} (hmark : c ≠ mark) (hescape : c ≠ '\\') (h : Units mark t) :
      Units mark (c :: t)
  | escaped (c : Char) {t : Text} (h : Units mark t) : Units mark ('\\' :: c :: t)

/-- A literal written to its end. -/
inductive Complete : Quote → Text → Prop
  | single {mark : Char} {body : Text} (hbody : Units mark body) (hne : body ≠ []) :
      Complete (.single mark) ([mark] ++ (body ++ [mark]))
  | triple {mark : Char} {body : Text}
      (hend : Text.FirstEnd [mark, mark, mark] (body ++ [mark, mark, mark])
        (body ++ [mark, mark, mark])) :
      Complete (.triple mark) ([mark, mark, mark] ++ (body ++ [mark, mark, mark]))

end Quote

namespace Grammar

/-- A comment written to its end, with the text that follows it: a block comment ends with
its first closer, and a line comment needs the end of its line behind it. -/
inductive CommentBefore (g : Grammar) : Text → Text → Prop
  | block {b : Block} {body : Text} (hb : b ∈ g.blocks)
      (hend : Text.FirstEnd b.closer (body ++ b.closer) (body ++ b.closer)) (v : Text) :
      CommentBefore g (b.opener ++ (body ++ b.closer)) v
  | line {marker body v : Text} (hmarker : marker ∈ g.lineMarkers) (hbody : '\n' ∉ body)
      (hv : v = [] ∨ v.head? = some '\n') : CommentBefore g (marker ++ body) v

/-! ### No mark takes the text of another -/

/-- Of two marks whose openers can begin one text, the first is a triple quote and the second
the quote it is made of. -/
theorem pairwise_marks (g : Grammar) :
    g.marks.Pairwise fun m later =>
      m.opener <+: later.opener ∨ later.opener <+: m.opener →
        ∃ c, m = .quote (.triple c) ∧ later = .quote (.single c) := by
  cases g <;>
    simp [marks, quotes, blocks, lineMarkers, Mark.opener, Quote.written]

/-- What a mark reads in a text is the token there, unless a triple quote stands before it. -/
theorem tokenAt?_of_read? {g : Grammar} {m : Mark} {t : Text} {found : Token × Text}
    (hm : m ∈ g.marks) (hread : m.read? t = some found)
    (hsingle : ∀ c, m = .quote (.single c) → ¬ [c, c, c] <+: t) :
    g.tokenAt? t = some found := by
  obtain ⟨before, after, hmarks⟩ := List.append_of_mem hm
  rw [tokenAt?_eq, List.findSome?_eq_some_iff]
  refine ⟨before, m, after, hmarks, hread, ?_⟩
  intro m' hm'
  obtain ⟨body, a, ht, -, -⟩ := Mark.read?_eq_some_iff.1 hread
  cases hfound : m'.read? t with
  | none => rfl
  | some found' =>
      obtain ⟨body', a', ht', -, -⟩ := Mark.read?_eq_some_iff.1 hfound
      have hopener : m.opener <+: t := ⟨body, ht.symm⟩
      have hopener' : m'.opener <+: t := ⟨body', ht'.symm⟩
      have hpairwise := pairwise_marks g
      rw [hmarks, List.pairwise_append] at hpairwise
      obtain ⟨c, rfl, rfl⟩ := hpairwise.2.2 m' hm' m List.mem_cons_self
        (List.prefix_or_prefix_of_prefix hopener' hopener)
      exact absurd hopener' (hsingle c rfl)

/-- A token that is cut off at its own end is the first token of the text. -/
theorem tokens_of_cut? {g : Grammar} {m : Mark} {a v : Text} (hm : m ∈ g.marks)
    (hcut : m.cut? (a ++ v) = some (a, v))
    (hsingle : ∀ c, m = .quote (.single c) → ¬ [c, c, c] <+: m.opener ++ (a ++ v)) :
    g.tokens (m.opener ++ (a ++ v)) = m.token (m.opener ++ a) :: g.tokens v := by
  have hread : m.read? (m.opener ++ (a ++ v)) = some (m.token (m.opener ++ a), v) :=
    Mark.read?_eq_some_iff.2 ⟨a ++ v, a, rfl, hcut, rfl⟩
  exact tokens_of_tokenAt? (tokenAt?_of_read? hm hread hsingle)

end Grammar

/-! ### A complete token is cut off at its end -/

/-- A text that ends with its first closer is cut off there, whatever follows. -/
theorem Text.through?_of_firstEnd {close t : Text} (h : FirstEnd close t t) (v : Text) :
    through? close (t ++ v) = some (t, v) := by
  have hself : through? close t = some (t, []) :=
    through?_eq_some_iff.2 ⟨List.append_nil t, h⟩
  simpa using through?_append hself v

/-- Escaped characters and characters other than the quote are passed over, so the literal
ends at the quote behind them. -/
theorem Quote.cutEscaped_units {mark : Char} (hmark : mark ≠ '\\') {body : Text}
    (h : Units mark body) (v : Text) :
    cutEscaped mark (body ++ mark :: v) = (body ++ [mark], v) := by
  induction h with
  | nil => exact cutEscaped_mark hmark v
  | plain hne hescape _ ih => rw [List.cons_append, cutEscaped_other hescape hne, ih]; rfl
  | escaped c _ ih => rw [List.cons_append, List.cons_append, cutEscaped_escape, ih]; rfl

namespace Grammar

theorem mark_ne_backslash {g : Grammar} {c : Char} (h : .single c ∈ g.quotes) : c ≠ '\\' := by
  have hquotes : c = '\'' ∨ c = '"' := by
    cases g <;> simpa [quotes] using h
  rcases hquotes with rfl | rfl <;> decide

/-- A complete literal is one token. -/
theorem tokens_literal {g : Grammar} {q : Quote} {s : Text} (hq : q ∈ g.quotes)
    (hs : q.Complete s) (v : Text) : g.tokens (s ++ v) = .literal s :: g.tokens v := by
  have hm : Mark.quote q ∈ g.marks := by simp [marks, hq]
  cases hs with
  | @single mark body hbody hne =>
      have hcut : (Mark.quote (.single mark)).cut? (body ++ [mark] ++ v) =
          some (body ++ [mark], v) := by
        rw [List.append_assoc]
        exact congrArg some (Quote.cutEscaped_units (mark_ne_backslash hq) hbody v)
      rw [List.append_assoc]
      apply tokens_of_cut? hm hcut
      -- The character behind the opening quote is part of the body, so it is not that quote.
      rintro c ⟨⟩ htriple
      cases hbody with
      | nil => exact hne rfl
      | plain hmark _ _ =>
          have hsecond := (List.cons_prefix_cons.1 (List.cons_prefix_cons.1 htriple).2).1
          exact hmark hsecond.symm
      | escaped _ _ =>
          have hsecond := (List.cons_prefix_cons.1 (List.cons_prefix_cons.1 htriple).2).1
          exact mark_ne_backslash hq hsecond
  | @triple mark body hend =>
      have hcut : (Mark.quote (.triple mark)).cut? (body ++ [mark, mark, mark] ++ v) =
          some (body ++ [mark, mark, mark], v) := by
        simp only [Mark.cut?, Quote.cut, Text.through?_of_firstEnd hend v, Option.getD_some]
      rw [List.append_assoc]
      exact tokens_of_cut? hm hcut (by simp)

/-- A complete comment is one token. -/
theorem tokens_comment {g : Grammar} {c v : Text} (h : g.CommentBefore c v) :
    g.tokens (c ++ v) = .comment c :: g.tokens v := by
  cases h with
  | @block b body hb hend =>
      have hm : Mark.block b ∈ g.marks := by simp [marks, hb]
      have hcut : (Mark.block b).cut? (body ++ b.closer ++ v) = some (body ++ b.closer, v) := by
        rw [Mark.cut?, Text.through?_of_firstEnd hend v, Option.some_or]
      rw [List.append_assoc]
      exact tokens_of_cut? hm hcut (by simp)
  | @line marker body _ hmarker hbody hv =>
      have hm : Mark.line marker ∈ g.marks := by simp [marks, hmarker]
      have hpass := takeWhile_ne_append hbody v
      have hstop : v.takeWhile (· ≠ '\n') = [] ∧ v.dropWhile (· ≠ '\n') = v := by
        rcases hv with rfl | hv
        · simp
        · obtain ⟨rest, rfl⟩ := List.head?_eq_some_iff.1 hv
          simp
      have hcut : (Mark.line marker).cut? (body ++ v) = some (body, v) := by
        rw [Mark.cut?, hpass.1, hpass.2, hstop.1, hstop.2, List.append_nil]
      rw [List.append_assoc]
      exact tokens_of_cut? hm hcut (by simp)

/-! ### Behind a neutral text -/

/-- Behind a neutral text **a complete literal is kept as it is written**: it is one token,
so nothing in it is read as a comment, a quote or a line break. -/
theorem withoutComments_literal {g : Grammar} {u s : Text} {q : Quote} (hu : g.Neutral u)
    (hq : q ∈ g.quotes) (hs : q.Complete s) (v : Text) :
    g.withoutComments (u ++ s ++ v) = g.withoutComments u ++ s ++ g.withoutComments v ∧
    g.tokens (u ++ s ++ v) = g.tokens u ++ .literal s :: g.tokens v := by
  have htokens : g.tokens (u ++ s ++ v) = g.tokens u ++ .literal s :: g.tokens v := by
    rw [List.append_assoc, hu.tokens_append, tokens_literal hq hs v]
  refine ⟨?_, htokens⟩
  rw [withoutComments, htokens, List.flatMap_append, List.flatMap_cons, List.append_assoc]
  rfl

/-- A literal that holds a comment marker, its own quote behind a backslash, the other quote
and a line break, in front of two quotes that would make its end a triple quote. -/
theorem withoutComments_literal_of_escaped_quote :
    hash.Neutral "x = 1  # it's\n".toList ∧
    (Quote.single '\'').Complete "'#\\'\"\n'".toList ∧
    hash.withoutComments ("x = 1  # it's\n".toList ++ "'#\\'\"\n'".toList ++ "''# c".toList) =
      "x = 1  \n".toList ++ "'#\\'\"\n'".toList ++ "''".toList := by
  have hneutral : hash.Neutral "x = 1  # it's\n".toList := by decide +kernel
  have hunits : Quote.Units '\'' "#\\'\"\n".toList :=
    .plain (by decide) (by decide) <| .escaped '\'' <|
      .plain (by decide) (by decide) <| .plain (by decide) (by decide) .nil
  have hcomplete : (Quote.single '\'').Complete "'#\\'\"\n'".toList :=
    .single hunits (by decide)
  refine ⟨hneutral, hcomplete,
    (withoutComments_literal hneutral (by decide) hcomplete _).1.trans ?_⟩
  decide +kernel

theorem withoutComments_comment {g : Grammar} {u c v : Text} (hu : g.Neutral u)
    (hc : g.CommentBefore c v) :
    g.withoutComments (u ++ c ++ v) = g.withoutComments (u ++ v) := by
  rw [List.append_assoc, withoutComments, withoutComments, hu.tokens_append, hu.tokens_append,
    tokens_comment hc]
  simp [Token.kept]

end Grammar

/-- Behind a neutral text **a complete comment is noise**: the text has one and the same
signature with it and without it. -/
theorem signature_comment {g : Grammar} {u c v : Text} (hu : g.Neutral u)
    (hc : g.CommentBefore c v) :
    signature (some g) (u ++ c ++ v) = signature (some g) (u ++ v) := by
  simp only [signature, Grammar.withoutComments_comment hu hc]

/-- A wrapper that holds a quote, a line marker and the closer of a plain block comment, in
front of a text that begins with the closer of a wrapper. -/
theorem signature_comment_of_wrapper :
    Grammar.jsx.Neutral "a\n".toList ∧
    Grammar.jsx.CommentBefore "\x7b/* it's // */ */\x7d".toList "*/\x7d b".toList ∧
    signature (some .jsx)
        ("a\n".toList ++ "\x7b/* it's // */ */\x7d".toList ++ "*/\x7d b".toList) =
      signature (some .jsx) ("a\n".toList ++ "*/\x7d b".toList) := by
  have hneutral : Grammar.jsx.Neutral "a\n".toList := by decide +kernel
  have hcut : Text.through? ['*', '/', '\x7d'] " it's // */ */\x7d".toList =
      some (" it's // */ */\x7d".toList, []) := by decide +kernel
  have hcomment :
      Grammar.jsx.CommentBefore "\x7b/* it's // */ */\x7d".toList "*/\x7d b".toList :=
    @Grammar.CommentBefore.block _ ⟨['{', '/', '*'], ['*', '/', '}'], true⟩ " it's // */ ".toList
      (by decide) (Text.firstEnd_of_through? hcut) _
  exact ⟨hneutral, hcomment, signature_comment hneutral hcomment⟩

end CleanDiff
