import CleanDiff.Grammar.Basic

/-!
# Tokens of a text

Reading a text under a comment grammar cuts it into *tokens*: string literals,
comments, and single plain characters for all that lies between them. At each
position the grammar's quotes are tried first, then its block comments, then its
line markers, and the first that fits takes its whole token.

* A one-character quote ends behind the first equal quote that no backslash
  escapes; a triple quote ends behind the next equal triple quote.
* A block comment ends behind its first closer.
* A line comment ends in front of the next `\n`.
* What finds no end runs to the end of the text, except that a block which must
  close is then not taken.

`tokens_flatten` says that nothing is lost: the tokens tile the text.
-/

namespace CleanDiff

/-- A piece of a text: a plain character, a string literal or a comment. -/
inductive Token
  | plain (c : Char)
  | literal (written : Text)
  | comment (written : Text)
  deriving DecidableEq, Repr

namespace Token

/-- The token as it stands in the text. -/
def text : Token → Text
  | .plain c => [c]
  | .literal written => written
  | .comment written => written

/-- What is left of the token when comments are taken out. -/
def kept : Token → Text
  | .plain c => [c]
  | .literal written => written
  | .comment _ => []

end Token

/-! ### Where one token ends -/

/-- Cut behind the first `mark` that no backslash escapes; without one, at the
end of the text. -/
def Quote.cutEscaped (mark : Char) : Text → Text × Text
  | [] => ([], [])
  | ['\\'] => (['\\'], [])
  | '\\' :: c :: t => (cutEscaped mark t).map (fun body => '\\' :: c :: body) id
  | c :: t => if c = mark then ([c], t) else (cutEscaped mark t).map (fun body => c :: body) id

/-- Cut the rest of a literal off the text behind its opening quote. -/
def Quote.cut : Quote → Text → Text × Text
  | .single mark, t => cutEscaped mark t
  | .triple mark, t => (Text.through? [mark, mark, mark] t).getD (t, [])

/-- The literal that begins the text with this quote, and what follows it. -/
def Quote.literal? (q : Quote) (t : Text) : Option (Token × Text) :=
  (Text.after? q.written t).map fun body =>
    let cut := q.cut body
    (.literal (q.written ++ cut.1), cut.2)

/-- The block comment that begins the text with this opener, and what follows it. -/
def Block.comment? (b : Block) (t : Text) : Option (Token × Text) :=
  (Text.after? b.opener t).bind fun body =>
    match Text.through? b.closer body with
    | some cut => some (.comment (b.opener ++ cut.1), cut.2)
    | none => if b.mustClose then none else some (.comment (b.opener ++ body), [])

/-- The line comment that begins the text with this marker, and what follows it. -/
def lineComment? (marker : Text) (t : Text) : Option (Token × Text) :=
  (Text.after? marker t).map fun body =>
    (.comment (marker ++ body.takeWhile (· ≠ '\n')), body.dropWhile (· ≠ '\n'))

namespace Grammar

/-- The literal or comment that begins the text, and what follows it. -/
def tokenAt? (g : Grammar) (t : Text) : Option (Token × Text) :=
  (g.quotes.findSome? (·.literal? t)).or <|
    (g.blocks.findSome? (·.comment? t)).or <|
      g.lineMarkers.findSome? (lineComment? · t)

end Grammar

/-! ### Nothing is lost, and each token takes at least one character -/

theorem Quote.append_cutEscaped (mark : Char) (t : Text) :
    (cutEscaped mark t).1 ++ (cutEscaped mark t).2 = t := by
  fun_induction cutEscaped mark t <;> simp_all

theorem Quote.append_cut (q : Quote) (t : Text) : (q.cut t).1 ++ (q.cut t).2 = t := by
  cases q with
  | single mark => exact append_cutEscaped mark t
  | triple mark =>
    cases h : Text.through? [mark, mark, mark] t with
    | none => simp [cut, h]
    | some c => simp [cut, h, Text.append_of_through? h]

/-- A token that begins a text, and what follows it, concatenate to the text. -/
def Begins (t : Text) (found : Token × Text) : Prop :=
  found.1.text ++ found.2 = t ∧ found.1.text ≠ []

theorem Quote.begins_of_literal? {q : Quote} {t : Text} {found : Token × Text}
    (h : q.literal? t = some found) : Begins t found := by
  obtain ⟨body, hbody, rfl⟩ := Option.map_eq_some_iff.1 h
  rw [Text.after?_eq_some_iff] at hbody
  refine ⟨?_, ?_⟩
  · simp [Token.text, List.append_assoc, q.append_cut, hbody]
  · cases q <;> simp [Token.text, written]

theorem Grammar.opener_ne_nil {g : Grammar} {b : Block} (h : b ∈ g.blocks) : b.opener ≠ [] := by
  cases g <;> simp [blocks] at h <;> (try subst h) <;> (try (rcases h with rfl | rfl)) <;> simp

theorem Grammar.marker_ne_nil {g : Grammar} {m : Text} (h : m ∈ g.lineMarkers) : m ≠ [] := by
  cases g <;> simp [lineMarkers] at h <;> simp [h]

theorem Block.begins_of_comment? {b : Block} {t : Text} {found : Token × Text}
    (hb : b.opener ≠ []) (h : b.comment? t = some found) : Begins t found := by
  obtain ⟨body, hbody, h⟩ := Option.bind_eq_some_iff.1 h
  rw [Text.after?_eq_some_iff] at hbody
  split at h
  · next cut hcut =>
    cases h
    exact ⟨by simp [Token.text, List.append_assoc, Text.append_of_through? hcut, hbody],
      by simp [Token.text, hb]⟩
  · split at h
    · simp at h
    · cases h
      exact ⟨by simp [Token.text, hbody], by simp [Token.text, hb]⟩

theorem begins_of_lineComment? {m t : Text} {found : Token × Text}
    (hm : m ≠ []) (h : lineComment? m t = some found) : Begins t found := by
  obtain ⟨body, hbody, rfl⟩ := Option.map_eq_some_iff.1 h
  rw [Text.after?_eq_some_iff] at hbody
  exact ⟨by simp [Token.text, List.append_assoc, List.takeWhile_append_dropWhile, hbody],
    by simp [Token.text, hm]⟩

theorem Grammar.begins_of_tokenAt? {g : Grammar} {t : Text} {found : Token × Text}
    (h : g.tokenAt? t = some found) : Begins t found := by
  simp only [tokenAt?, Option.or_eq_some_iff] at h
  rcases h with h | ⟨-, h | ⟨-, h⟩⟩
  · obtain ⟨q, -, hq⟩ := List.exists_of_findSome?_eq_some h
    exact q.begins_of_literal? hq
  · obtain ⟨b, hb, hc⟩ := List.exists_of_findSome?_eq_some h
    exact b.begins_of_comment? (opener_ne_nil hb) hc
  · obtain ⟨m, hm, hc⟩ := List.exists_of_findSome?_eq_some h
    exact begins_of_lineComment? (marker_ne_nil hm) hc

theorem Begins.length_lt {t : Text} {found : Token × Text} (h : Begins t found) :
    found.2.length < t.length := by
  have := List.length_pos_iff.2 h.2
  rw [← h.1, List.length_append]
  omega

/-! ### The tokens of a whole text -/

namespace Grammar

/-- Cut a text into its tokens, from left to right. -/
def tokens (g : Grammar) (t : Text) : List Token :=
  match t with
  | [] => []
  | c :: rest =>
      match h : g.tokenAt? (c :: rest) with
      | some found =>
          have := (begins_of_tokenAt? h).length_lt
          found.1 :: tokens g found.2
      | none => .plain c :: tokens g rest
termination_by t.length
decreasing_by
  · exact this
  · exact Nat.lt_succ_self _

/-- The tokens of a text concatenate to it. -/
theorem tokens_flatten (g : Grammar) (t : Text) : (g.tokens t).flatMap Token.text = t := by
  fun_induction tokens g t with
  | case1 => rfl
  | case2 c rest found h _ ih => simp [ih, (begins_of_tokenAt? h).1]
  | case3 c rest h ih => simp [ih, Token.text]

end Grammar

end CleanDiff
