import CleanDiff.Proofs.CompleteTokens

/-!
# Where a block comment ends

What stands behind the first closer of a block comment is code, and a reader that takes it
for a part of the comment deletes it. A plain block comment never does so: it ends with its
first closer, or runs to the end of the text if it has none.

A wrapper `{/*` does. It ends at the first `*/}`, however many `*/` it passes on the way, so a
brace and a comment that were never meant as a wrapper take everything up to the next one with
them (`not_endsAtCloser`). `endsAtCloser_iff` says exactly when no block comment goes beyond its
first closer: when what follows that closer, in the text, is what the block needs behind it.
-/

namespace CleanDiff

namespace Block

/-- The closer of the comment itself. A wrapper closes with that of the comment in it and a
brace. -/
def innerCloser (b : Block) : Text := if b.mustClose then b.closer.dropLast else b.closer

/-- What a block needs behind the closer of the comment itself. -/
def brace (b : Block) : Text := if b.mustClose then b.closer.drop (b.closer.length - 1) else []

theorem innerCloser_append_brace (b : Block) : b.innerCloser ++ b.brace = b.closer := by
  by_cases h : b.mustClose = true
  · rw [innerCloser, brace, if_pos h, if_pos h, List.dropLast_eq_take, List.take_append_drop]
  · rw [innerCloser, brace, if_neg h, if_neg h, List.append_nil]

theorem brace_eq_nil {b : Block} (h : b.mustClose = false) : b.brace = [] := by
  simp [brace, h]

/-- What stands behind the opener of a comment goes no further than its first closer. -/
def EndsAtCloser (b : Block) (body : Text) : Prop :=
  ∀ cut ∈ Text.through? b.innerCloser body, cut.2 = b.brace

instance (b : Block) (body : Text) : Decidable (b.EndsAtCloser body) :=
  inferInstanceAs (Decidable (∀ cut ∈ Text.through? b.innerCloser body, cut.2 = b.brace))

end Block

/-! ### A closer made of two parts -/

namespace Text

theorem exists_through?_of_suffix {close t b : Text} (hb : b <+: t) (hend : close <:+ b) :
    ∃ cut, through? close t = some cut ∧ cut.1 <+: b := by
  cases hcut : through? close t with
  | none => exact absurd hend (not_suffix_of_through?_eq_none hcut hb)
  | some cut => exact ⟨cut, rfl, (firstEnd_of_through? hcut).2.2 b hb hend⟩

/-- A text that ends with the first `inner ++ brace` holds an `inner`. Either this is at the
end, or the first `inner` has something other than `brace` behind it. -/
theorem exists_through?_inner {inner brace t rest : Text}
    (h : through? (inner ++ brace) (t ++ rest) = some (t, rest)) :
    ∃ cut, through? inner t = some cut ∧ (cut.2 = brace ↔ brace <+: cut.2 ++ rest) := by
  obtain ⟨-, -, ⟨lead, hlead⟩, hleast⟩ := through?_eq_some_iff.1 h
  have ht : (lead ++ inner) ++ brace = t := by rw [List.append_assoc]; exact hlead
  obtain ⟨cut, hcut, hshort⟩ :=
    exists_through?_of_suffix ⟨brace, ht⟩ (List.suffix_append lead inner)
  refine ⟨cut, hcut, ?_, ?_⟩
  · rintro hbrace
    rw [hbrace]
    exact List.prefix_append brace rest
  · rintro ⟨more, hmore⟩
    obtain ⟨happend, -, ⟨front, hfront⟩, -⟩ := through?_eq_some_iff.1 hcut
    -- The first `inner` with `brace` behind it is a place where the text could have ended.
    have hlong : t <+: cut.1 ++ brace := by
      apply hleast
      · exact ⟨more, by rw [List.append_assoc, hmore, ← List.append_assoc, happend]⟩
      · exact ⟨front, by rw [← List.append_assoc, hfront]⟩
    rw [← happend, List.prefix_append_right_inj] at hlong
    have hlength := congrArg List.length (ht.trans happend.symm)
    have hle := hshort.length_le
    simp only [List.length_append] at hlength hle
    exact hlong.eq_of_length_le (by omega)

end Text

/-! ### The mark behind a token -/

namespace Grammar

/-- A text that begins with the opener of a block begins with no other opener. -/
theorem eq_block_of_opener {g : Grammar} {m : Mark} {b : Block} {t : Text} (hm : m ∈ g.marks)
    (hb : b ∈ g.blocks) (h : m.opener <+: t) (hopener : b.opener <+: t) : m = .block b := by
  have hblock : Mark.block b ∈ g.marks := by simp [marks, hb]
  have hprefix := List.prefix_or_prefix_of_prefix h hopener
  obtain ⟨before, after, hmarks⟩ := List.append_of_mem hm
  have hpairwise := pairwise_marks g
  rw [hmarks, List.pairwise_append, List.pairwise_cons] at hpairwise
  obtain ⟨-, ⟨hafter, -⟩, hbefore⟩ := hpairwise
  rw [hmarks, List.mem_append, List.mem_cons] at hblock
  rcases hblock with hblock | hsame | hblock
  · obtain ⟨c, hquote, -⟩ := hbefore _ hblock m List.mem_cons_self hprefix.symm
    exact absurd hquote (by simp)
  · exact hsame.symm
  · obtain ⟨c, -, hquote⟩ := hafter _ hblock hprefix
    exact absurd hquote (by simp)

/-- A comment among the tokens of a text is the token of the text that begins with it. -/
theorem tokenAt?_of_tokens {g : Grammar} {t w : Text} {before after : List Token}
    (h : g.tokens t = before ++ .comment w :: after) :
    g.tokenAt? (w ++ after.flatMap Token.text) = some (.comment w, after.flatMap Token.text) ∧
      after = g.tokens (after.flatMap Token.text) := by
  have ht : t = before.flatMap Token.text ++ (w ++ after.flatMap Token.text) := by
    rw [← g.tokens_flatten t, h, List.flatMap_append, List.flatMap_cons]
    rfl
  rw [ht] at h
  have htokens := (tokens_split h rfl).2
  cases hread : g.tokenAt? (w ++ after.flatMap Token.text) with
  | none =>
      cases hrest : w ++ after.flatMap Token.text with
      | nil => exact absurd htokens (by simp [hrest])
      | cons c rest =>
          rw [hrest] at hread htokens
          rw [tokens_of_tokenAt?_eq_none hread] at htokens
          exact absurd htokens (by simp)
  | some found =>
      rw [tokens_of_tokenAt? hread, List.cons.injEq] at htokens
      obtain ⟨hfirst, hafter⟩ := htokens
      have hbegins := (begins_of_tokenAt? hread).1
      rw [← hfirst] at hbegins
      have hrest : found.2 = after.flatMap Token.text := List.append_cancel_left hbegins
      rw [hrest] at hafter
      exact ⟨congrArg some (Prod.ext hfirst.symm hrest), hafter⟩

/-- What stands behind the opener of a block comment is what the rule for its end cuts off. -/
theorem cut?_of_tokens {g : Grammar} {b : Block} {t body : Text} {before after : List Token}
    (hb : b ∈ g.blocks) (h : g.tokens t = before ++ .comment (b.opener ++ body) :: after) :
    (Mark.block b).cut? (body ++ after.flatMap Token.text) =
      some (body, after.flatMap Token.text) := by
  have hread := (tokenAt?_of_tokens h).1
  rw [tokenAt?_eq] at hread
  obtain ⟨m, hm, hread⟩ := List.exists_of_findSome?_eq_some hread
  obtain ⟨body', a, htext, hcut, htoken⟩ := Mark.read?_eq_some_iff.1 hread
  obtain rfl : m = .block b := by
    refine eq_block_of_opener hm hb ⟨body', htext.symm⟩ ⟨body ++ after.flatMap Token.text, ?_⟩
    rw [List.append_assoc]
  obtain rfl : body = a := List.append_cancel_left (Token.comment.inj htoken)
  rw [List.append_assoc] at htext
  rw [List.append_cancel_left htext]
  exact hcut

/-! ### The end of a block comment -/

/-- A block comment goes **no further than its first closer exactly if the text has behind
that closer what the block needs there**: always, if this is nothing, and for a wrapper if it
is the brace. Without a closer it is the last token of the text. -/
theorem endsAtCloser_iff {g : Grammar} {b : Block} {t body : Text} {before after : List Token}
    (hb : b ∈ g.blocks) (h : g.tokens t = before ++ .comment (b.opener ++ body) :: after) :
    (b.EndsAtCloser body ↔
      ∀ cut ∈ Text.through? b.innerCloser (body ++ after.flatMap Token.text),
        b.brace <+: cut.2) ∧
    (b.mustClose = false → b.EndsAtCloser body) ∧
    (Text.through? b.innerCloser body = none → after = []) := by
  have hcut := cut?_of_tokens hb h
  rw [Mark.cut?, ← b.innerCloser_append_brace] at hcut
  cases hclose : Text.through? (b.innerCloser ++ b.brace) (body ++ after.flatMap Token.text) with
  | some found =>
      rw [hclose, Option.some_or] at hcut
      rw [Option.some.inj hcut] at hclose
      obtain ⟨cut, hinner, hiff⟩ := Text.exists_through?_inner hclose
      have hends : b.EndsAtCloser body ↔ cut.2 = b.brace := by simp [Block.EndsAtCloser, hinner]
      have hlonger := Text.through?_append hinner (after.flatMap Token.text)
      refine ⟨?_, ?_, ?_⟩
      · rw [hends, hiff, hlonger]
        simp
      · intro hplain
        rw [hends, hiff, Block.brace_eq_nil hplain]
        exact List.nil_prefix
      · intro hnone
        rw [hinner] at hnone
        exact absurd hnone (by simp)
  | none =>
      rw [hclose, Option.none_or] at hcut
      split at hcut
      · exact absurd hcut (by simp)
      · next hopen =>
        -- The comment has no closer and takes all that is left.
        have hplain : b.mustClose = false := by simpa using hopen
        have hrest : after.flatMap Token.text = [] := (Prod.mk.inj (Option.some.inj hcut)).2.symm
        have hafter : after = [] := by rw [(tokenAt?_of_tokens h).2, hrest, tokens_nil]
        rw [hrest, Block.brace_eq_nil hplain, List.append_nil, List.append_nil] at hclose
        have hends : b.EndsAtCloser body := by simp [Block.EndsAtCloser, hclose]
        refine ⟨⟨?_, fun _ => hends⟩, fun _ => hends, fun _ => hafter⟩
        intro _ cut _
        rw [Block.brace_eq_nil hplain]
        exact List.nil_prefix

/-- A wrapper that is closed where its comment is, in front of a brace and a comment that are
no wrapper: the closer of a wrapper does not follow. -/
theorem endsAtCloser_iff_of_closed_wrapper :
    jsx.tokens "\x7b/* a **/\x7d\x7b/* b */ x\x7d".toList =
      [] ++ Token.comment (['{', '/', '*'] ++ " a **/\x7d".toList) ::
        [.plain '{', .comment "/* b */".toList, .plain ' ', .plain 'x', .plain '}'] ∧
    Block.EndsAtCloser ⟨['{', '/', '*'], ['*', '/', '}'], true⟩ " a **/\x7d".toList := by
  have htokens : jsx.tokens "\x7b/* a **/\x7d\x7b/* b */ x\x7d".toList =
      [] ++ Token.comment (['{', '/', '*'] ++ " a **/\x7d".toList) ::
        [.plain '{', .comment "/* b */".toList, .plain ' ', .plain 'x', .plain '}'] := by
    decide +kernel
  have hb : ⟨['{', '/', '*'], ['*', '/', '}'], true⟩ ∈ jsx.blocks := by decide
  have hiff := (endsAtCloser_iff hb htokens).1
  exact ⟨htokens, hiff.2 (by decide +kernel)⟩

/-- A wrapper goes beyond its first closer: a brace, a comment and code up to the next closer
of a wrapper are one comment. -/
theorem not_endsAtCloser :
    ¬ ∀ (g : Grammar) (b : Block) (t body : Text), b ∈ g.blocks →
      .comment (b.opener ++ body) ∈ g.tokens t → b.EndsAtCloser body := by
  intro h
  have hswallowed := h .jsx ⟨['{', '/', '*'], ['*', '/', '}'], true⟩
    "\x7b/* a */ x\x7d\x7b/* b */\x7d".toList " a */ x\x7d\x7b/* b */\x7d".toList
    (by decide) (by decide +kernel)
  exact absurd hswallowed (by decide +kernel)

end Grammar

end CleanDiff
