import CleanDiff.Grammar.Pattern
import CleanDiff.Proofs.TokenCut

/-!
# The patterns find the tokens

A grammar says its tokens twice: by the reader `Grammar.tokens`, which looks for the end of
one token after another, and by the patterns of `Grammar.patternTokens`, whose match is the
first in an order of preference for which all that follows fits as well. **Both cut every
text in the same way** (`patternTokens_eq_tokens`).

* `Pattern.run_many`: repetition without fuel. The bound on the number of rounds is never
  reached, because each round takes a character.
* `run_literalBody`: the body of a literal never gives a character back. Whatever round is
  preferred leads to an end of the literal, so the first choice is the one that stands.
* `run_few_until`, `run_few_untilEnd`: the fewest characters in front of a delimiter are
  those in front of its first occurrence.
-/

namespace CleanDiff

namespace Pattern

variable {β : Type}

/-! ### Patterns one constructor at a time -/

theorem run_seq (p q : Pattern) (t : Text) (next : Text → Option β) :
    (seq p q).run t next = p.run t fun rest => q.run rest next := rfl

theorem run_alt (p q : Pattern) (t : Text) (next : Text → Option β) :
    (alt p q).run t next = (p.run t next).or (q.run t next) := by
  rw [run]
  cases p.run t next <;> rfl

theorem run_char (c : Char) (t : Text) (next : Text → Option β) :
    (char c).run t next = (Text.after? [c] t).bind next := by
  cases t with
  | nil => rfl
  | cons a t =>
      by_cases h : c = a
      · simp [run, Text.after?, h]
      · simp [run, Text.after?, h, Ne.symm h]

theorem run_anyBut_cons (excluded : List Char) (a : Char) (t : Text) (next : Text → Option β) :
    (anyBut excluded).run (a :: t) next = if a ∈ excluded then none else next t := rfl

theorem run_text (s t : Text) (next : Text → Option β) :
    (text s).run t next = (Text.after? s t).bind next := by
  induction s generalizing t with
  | nil => rfl
  | cons c s ih =>
      rw [text, run_seq, run_char]
      cases t with
      | nil => rfl
      | cons a t =>
          by_cases h : c = a
          · simp [Text.after?, h, ih]
          · simp [Text.after?, h]

theorem run_firstOf (ps : List Pattern) (t : Text) (next : Text → Option β) :
    (firstOf ps).run t next = ps.findSome? fun p => p.run t next := by
  induction ps with
  | nil => rfl
  | cons p ps ih =>
      rw [show firstOf (p :: ps) = alt p (firstOf ps) from rfl, run_alt, ih, List.findSome?_cons]
      cases p.run t next <;> rfl

/-! ### Repetition without fuel -/

/-- A pattern fails if all that could follow it fails. -/
theorem run_none (p : Pattern) (t : Text) : (p.run t fun _ => (none : Option β)) = none := by
  induction p generalizing t with
  | never => rfl
  | empty => rfl
  | char c => rw [run_char, Option.bind_fun_none]
  | anyBut excluded =>
      cases t with
      | nil => rfl
      | cons a t => rw [run_anyBut_cons, ite_self]
  | atEnd => simp [run]
  | seq p q ihp ihq => simp only [run_seq, ihp, ihq]
  | alt p q ihp ihq => rw [run_alt, ihp, ihq, Option.none_or]
  | many p ih =>
      have hrounds : ∀ fuel t, repeatMany (fun t next => p.run t next)
          (fun _ => (none : Option β)) fuel t = none := by
        intro fuel
        induction fuel with
        | zero => exact fun t => rfl
        | succ fuel ihf => simp [repeatMany, ihf, ih]
      exact hrounds t.length t
  | few p ih =>
      have hrounds : ∀ fuel t, repeatFew (fun t next => p.run t next)
          (fun _ => (none : Option β)) fuel t = none := by
        intro fuel
        induction fuel with
        | zero => exact fun t => rfl
        | succ fuel ihf => simp [repeatFew, ihf, ih]
      exact hrounds t.length t

/-- Two bounds on the number of rounds give the same if neither is below the length of the
text. -/
theorem repeatMany_fuel (p : Pattern) (next : Text → Option β) {fuel fuel' : Nat} {t : Text}
    (h : t.length ≤ fuel) (h' : t.length ≤ fuel') :
    repeatMany (fun t next => p.run t next) next fuel t =
      repeatMany (fun t next => p.run t next) next fuel' t := by
  have hnil : ∀ fuel, repeatMany (fun t next => p.run t next) next fuel [] = next [] := by
    intro fuel
    cases fuel with
    | zero => rfl
    | succ fuel => simp [repeatMany, run_none]
  induction fuel generalizing fuel' t with
  | zero =>
      obtain rfl : t = [] := List.length_eq_zero_iff.1 (Nat.le_zero.1 h)
      rw [hnil, hnil]
  | succ fuel ih =>
      cases fuel' with
      | zero =>
          obtain rfl : t = [] := List.length_eq_zero_iff.1 (Nat.le_zero.1 h')
          rw [hnil, hnil]
      | succ fuel' =>
          have hround : ∀ rest : Text,
              (if rest.length < t.length then
                repeatMany (fun t next => p.run t next) next fuel rest else none) =
              if rest.length < t.length then
                repeatMany (fun t next => p.run t next) next fuel' rest else none := by
            intro rest
            split
            · exact ih (by omega) (by omega)
            · rfl
          simp only [repeatMany, hround]

/-- Another round, which has to take a character, is preferred to leaving. -/
theorem run_many (p : Pattern) (t : Text) (next : Text → Option β) :
    (many p).run t next =
      (p.run t fun rest => if rest.length < t.length then (many p).run rest next else none).or
        (next t) := by
  cases t with
  | nil => simp [run, repeatMany, run_none]
  | cons c t =>
      have hround : ∀ rest : Text,
          (if rest.length < (c :: t).length then
            repeatMany (fun t next => p.run t next) next t.length rest else none) =
          if rest.length < (c :: t).length then (many p).run rest next else none := by
        intro rest
        split
        · next hlt => exact repeatMany_fuel p next (Nat.le_of_lt_succ hlt) (Nat.le_refl _)
        · rfl
      rw [run, List.length_cons, repeatMany]
      simp only [hround]
      cases p.run (c :: t) _ <;> rfl

/-- Leaving is preferred to taking one more character. -/
theorem run_few_any_cons (c : Char) (t : Text) (next : Text → Option β) :
    (few any).run (c :: t) next = (next (c :: t)).or ((few any).run t next) := by
  rw [run, List.length_cons, repeatFew]
  cases next (c :: t) <;> simp [any, run]

/-! ### Where the parts of a token end -/

/-- The fewest characters in front of a delimiter. -/
theorem run_few_until (close t : Text) :
    ((few any).run t fun rest => (text close).run rest some) =
      (Text.through? close t).map Prod.snd := by
  induction t with
  | nil => cases close <;> rfl
  | cons c t ih =>
      rw [run_few_any_cons, ih, run_text, Option.bind_fun_some, Text.through?]
      cases Text.after? close (c :: t) with
      | some rest => rfl
      | none =>
          rw [Option.none_or, Option.map_map]
          rfl

/-- The fewest characters in front of a delimiter or of the end of the text. -/
theorem run_few_untilEnd (close t : Text) :
    ((few any).run t fun rest => (alt (text close) atEnd).run rest some) =
      some ((Text.through? close t).getD (t, [])).2 := by
  induction t with
  | nil => cases close <;> rfl
  | cons c t ih =>
      rw [run_few_any_cons, ih, run_alt, run_text, Option.bind_fun_some, Text.through?]
      cases Text.after? close (c :: t) with
      | some rest => rfl
      | none => cases Text.through? close t <;> simp [run]

/-- As many characters as there are in front of the next `\n`. -/
theorem run_many_line (t : Text) :
    (many (anyBut ['\n'])).run t some = some (t.dropWhile (· ≠ '\n')) := by
  induction t with
  | nil => rfl
  | cons c t ih =>
      rw [run_many, run_anyBut_cons]
      by_cases hc : c = '\n'
      · simp [hc]
      · simp [hc, ih]

/-- The units of a literal with escapes: a backslash with what it escapes, if anything, or
one character that is neither a backslash nor the quote. -/
def literalUnit (mark : Char) : Pattern :=
  alt (seq (char '\\') (optional any)) (anyBut ['\\', mark])

/-- A backslash takes the character behind it along wherever what follows allows it. -/
theorem run_literalUnit_escape (mark c : Char) (t : Text) (next : Text → Option β) :
    (literalUnit mark).run ('\\' :: c :: t) next = (next t).or (next (c :: t)) := by
  rw [literalUnit, run_alt, run_anyBut_cons, if_pos List.mem_cons_self, Option.or_none, run_seq,
    run_char]
  show (optional any).run (c :: t) next = _
  rw [optional, run_alt]
  rfl

theorem run_literalUnit_backslash (mark : Char) (next : Text → Option β) :
    (literalUnit mark).run ['\\'] next = next [] := by
  rw [literalUnit, run_alt, run_anyBut_cons, if_pos List.mem_cons_self, Option.or_none]
  rfl

theorem run_literalUnit_other {mark c : Char} (hescape : c ≠ '\\') (t : Text)
    (next : Text → Option β) :
    (literalUnit mark).run (c :: t) next = if c = mark then none else next t := by
  have hnone : (seq (char '\\') (optional any)).run (c :: t) next = none := by
    rw [run_seq, run_char, Text.after?, if_neg hescape.symm, Option.bind_none]
  rw [literalUnit, run_alt, hnone, Option.none_or, run_anyBut_cons]
  simp [hescape]

/-- The body of a literal goes on to the first quote that no backslash escapes, or to the end
of the text. Every unit leads to such an end, so no round is ever taken back. -/
theorem run_literalBody (mark : Char) (t : Text) :
    ((many (literalUnit mark)).run t fun rest => (alt (char mark) atEnd).run rest some) =
      some (Quote.cutEscaped mark t).2 := by
  -- By the induction hypothesis what follows a unit always succeeds, so neither leaving the
  -- loop here nor a backslash without the character behind it is ever tried.
  fun_induction Quote.cutEscaped mark t with
  | case1 => rfl
  | case2 =>
      rw [run_many, run_literalUnit_backslash]
      rfl
  | case3 c t ih =>
      rw [run_many, run_literalUnit_escape, if_pos (by simp only [List.length_cons]; omega), ih]
      rfl
  | case4 t h1 h2 =>
      rw [run_many, run_literalUnit_other (Quote.ne_backslash h1 h2), if_pos rfl, Option.none_or,
        run_alt, run_char]
      simp [Text.after?]
  | case5 c t h1 h2 hmark ih =>
      rw [run_many, run_literalUnit_other (Quote.ne_backslash h1 h2), if_neg hmark,
        if_pos (by simp), ih]
      rfl

end Pattern

/-! ### One delimiter -/

/-- A literal ends where its pattern does. -/
theorem Quote.rest?_pattern (q : Quote) (t : Text) :
    q.pattern.rest? t = (q.literal? t).map Prod.snd := by
  cases q with
  | single mark =>
      rw [pattern, Pattern.rest?, Pattern.run_seq, Pattern.run_char, literal?, written]
      cases Text.after? [mark] t with
      | none => rfl
      | some body => exact Pattern.run_literalBody mark body
  | triple mark =>
      rw [pattern, Pattern.rest?, Pattern.run_seq, Pattern.run_text, literal?, written]
      cases Text.after? [mark, mark, mark] t with
      | none => rfl
      | some body => exact Pattern.run_few_untilEnd [mark, mark, mark] body

theorem rest?_lineCommentPattern (marker t : Text) :
    (lineCommentPattern marker).rest? t = (lineComment? marker t).map Prod.snd := by
  rw [lineCommentPattern, Pattern.rest?, Pattern.run_seq, Pattern.run_text, lineComment?]
  cases Text.after? marker t with
  | none => rfl
  | some body => exact Pattern.run_many_line body

namespace Grammar

/-- The blocks that must close are exactly the wrappers around another opener. -/
theorem wrapsOther_eq_mustClose {g : Grammar} {b : Block} (hb : b ∈ g.blocks) :
    g.wrapsOther b = b.mustClose := by
  revert b
  cases g <;> decide

theorem rest?_blockPattern {g : Grammar} {b : Block} (hb : b ∈ g.blocks) (t : Text) :
    (g.blockPattern b).rest? t = (b.comment? t).map Prod.snd := by
  rw [blockPattern, wrapsOther_eq_mustClose hb, Pattern.rest?, Pattern.run_seq, Pattern.run_text,
    Block.comment?]
  cases Text.after? b.opener t with
  | none => rfl
  | some body =>
      rw [Option.bind_some, Option.bind_some, Pattern.run_seq]
      cases b.mustClose with
      | true =>
          rw [if_pos rfl, Pattern.run_few_until]
          cases Text.through? b.closer body <;> rfl
      | false =>
          rw [if_neg (by simp), Pattern.run_few_untilEnd]
          cases Text.through? b.closer body <;> rfl

/-! ### All delimiters of a grammar -/

/-- The first pattern that fits ends where the first token that is read does. -/
theorem findSome?_rest? {α : Type} {l : List α} {f : α → Pattern}
    {read? : α → Option (Token × Text)} {t : Text}
    (h : ∀ a ∈ l, (f a).rest? t = (read? a).map Prod.snd) :
    (l.map f).findSome? (·.rest? t) = (l.findSome? read?).map Prod.snd := by
  induction l with
  | nil => rfl
  | cons a l ih =>
      rw [List.forall_mem_cons] at h
      rw [List.map_cons, List.findSome?_cons, List.findSome?_cons, h.1, ih h.2]
      cases read? a <;> rfl

theorem rest?_literalPattern (g : Grammar) (t : Text) :
    g.literalPattern.rest? t = (g.quotes.findSome? (·.literal? t)).map Prod.snd := by
  rw [literalPattern, Pattern.rest?, Pattern.run_firstOf]
  exact findSome?_rest? fun q _ => q.rest?_pattern t

theorem rest?_commentPattern (g : Grammar) (t : Text) :
    g.commentPattern.rest? t =
      ((g.blocks.findSome? (·.comment? t)).or (g.lineMarkers.findSome? (lineComment? · t))).map
        Prod.snd := by
  rw [commentPattern, Pattern.rest?, Pattern.run_firstOf, List.findSome?_append, Option.map_or]
  congr 1
  · exact findSome?_rest? fun b hb => rest?_blockPattern hb t
  · exact findSome?_rest? fun m _ => rest?_lineCommentPattern m t

/-- The pattern of a whole grammar: a literal, or else a comment. -/
def tokenPattern (g : Grammar) : Pattern := .alt g.literalPattern g.commentPattern

/-- The pattern matches where the reader finds a token, and the match ends where the token
does. -/
theorem rest?_tokenPattern (g : Grammar) (t : Text) :
    g.tokenPattern.rest? t = (g.tokenAt? t).map Prod.snd := by
  rw [tokenAt?, Option.map_or, ← rest?_literalPattern, ← rest?_commentPattern]
  exact Pattern.run_alt ..

/-! ### The token of a match -/

theorem eq_literal_of_found {g : Grammar} {t : Text} {found : Token × Text}
    (h : g.quotes.findSome? (·.literal? t) = some found) :
    found.1 = .literal found.1.text := by
  obtain ⟨q, -, hq⟩ := List.exists_of_findSome?_eq_some h
  obtain ⟨body, -, rfl⟩ := Option.map_eq_some_iff.1 hq
  rfl

theorem eq_comment_of_found {g : Grammar} {t : Text} {found : Token × Text}
    (h : (g.blocks.findSome? (·.comment? t)).or (g.lineMarkers.findSome? (lineComment? · t)) =
      some found) : found.1 = .comment found.1.text := by
  rcases Option.or_eq_some_iff.1 h with h | ⟨-, h⟩
  · obtain ⟨b, -, hb⟩ := List.exists_of_findSome?_eq_some h
    obtain ⟨body, -, hb⟩ := Option.bind_eq_some_iff.1 hb
    split at hb
    · cases hb
      rfl
    · split at hb
      · exact absurd hb (by simp)
      · cases hb
        rfl
  · obtain ⟨m, -, hm⟩ := List.exists_of_findSome?_eq_some h
    obtain ⟨body, -, rfl⟩ := Option.map_eq_some_iff.1 hm
    rfl

/-- The patterns find the token that the reader finds, and leave what it leaves. -/
theorem matchAt?_eq_tokenAt? (g : Grammar) (t : Text) : g.matchAt? t = g.tokenAt? t := by
  -- What a match takes of the text is the text of the token.
  have htake : ∀ found, g.tokenAt? t = some found →
      t.take (t.length - found.2.length) = found.1.text := by
    intro found hfound
    rw [← (begins_of_tokenAt? hfound).1, List.length_append, Nat.add_sub_cancel, List.take_left]
  rw [matchAt?, rest?_literalPattern, rest?_commentPattern]
  cases hliteral : g.quotes.findSome? (·.literal? t) with
  | some found =>
      have hread : g.tokenAt? t = some found := by rw [tokenAt?, hliteral, Option.some_or]
      rw [hread]
      show some (Token.literal (t.take (t.length - found.2.length)), found.2) = some found
      rw [htake found hread, ← eq_literal_of_found hliteral]
  | none =>
      have hread : g.tokenAt? t =
          (g.blocks.findSome? (·.comment? t)).or (g.lineMarkers.findSome? (lineComment? · t)) := by
        rw [tokenAt?, hliteral, Option.none_or]
      rw [← hread]
      cases hcomment : g.tokenAt? t with
      | none => rfl
      | some found =>
          show some (Token.comment (t.take (t.length - found.2.length)), found.2) = some found
          rw [htake found hcomment, ← eq_comment_of_found (hread.symm.trans hcomment)]

/-- **The patterns of a grammar and its reader cut every text into the same tokens**, and the
one pattern for all tokens matches at the beginning of a text exactly where the reader finds a
token, up to its end. -/
theorem patternTokens_eq_tokens (g : Grammar) (t : Text) :
    g.patternTokens t = g.tokens t ∧
      g.tokenPattern.rest? t = (g.tokenAt? t).map Prod.snd := by
  refine ⟨?_, g.rest?_tokenPattern t⟩
  fun_induction tokens g t with
  | case1 => rw [patternTokens]
  | case2 c rest found h _ ih =>
      rw [patternTokens, matchAt?_eq_tokenAt?, h]
      simp only [(begins_of_tokenAt? h).length_lt, dite_true, ih]
  | case3 c rest h ih =>
      rw [patternTokens, matchAt?_eq_tokenAt?, h]
      simp only [ih]

end Grammar

end CleanDiff
