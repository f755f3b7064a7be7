import CleanDiff.Grammar.Token

/-!
# Tokens by pattern

The tokens of a grammar can also be said by one pattern for its literals and one
for its comments. A pattern is matched at the beginning of a text, and its parts
have an order of preference: the left alternative before the right one, another
round of `many` before leaving it, leaving `few` before another round. The match
is the first in this order for which everything that follows fits as well.

`Grammar.patternTokens` cuts a text with the two patterns: it takes a match at the
earliest position at which there is one, and goes on behind it.
-/

namespace CleanDiff

/-- A pattern over texts. -/
inductive Pattern
  /-- Matches nowhere. -/
  | never
  /-- Matches the empty text. -/
  | empty
  | char (c : Char)
  /-- Any single character but these. -/
  | anyBut (excluded : List Char)
  /-- The end of the text. -/
  | atEnd
  /-- One pattern and then another. -/
  | seq (p q : Pattern)
  /-- One pattern, or else another. -/
  | alt (p q : Pattern)
  /-- A pattern any number of times, the more the better. -/
  | many (p : Pattern)
  /-- A pattern any number of times, the fewer the better. -/
  | few (p : Pattern)
  deriving DecidableEq, Repr

namespace Pattern

variable {β : Type}

/-- Repeat a step, at most `fuel` times and as often as possible, before `next`. A
round has to take a character. -/
def repeatMany (step : Text → (Text → Option β) → Option β) (next : Text → Option β) :
    Nat → Text → Option β
  | 0, t => next t
  | fuel + 1, t =>
      step t (fun rest => if rest.length < t.length then repeatMany step next fuel rest else none)
        <|> next t

/-- Repeat a step, at most `fuel` times and as seldom as possible, before `next`.
A round has to take a character. -/
def repeatFew (step : Text → (Text → Option β) → Option β) (next : Text → Option β) :
    Nat → Text → Option β
  | 0, t => next t
  | fuel + 1, t =>
      next t <|>
        step t fun rest => if rest.length < t.length then repeatFew step next fuel rest else none

/-- Match a pattern at the beginning of a text and go on with `next` behind it;
where `next` fails the next match in the order of preference is tried. -/
def run : Pattern → Text → (Text → Option β) → Option β
  | never, _, _ => none
  | empty, t, next => next t
  | char c, t, next =>
      match t with
      | a :: rest => if a = c then next rest else none
      | [] => none
  | anyBut excluded, t, next =>
      match t with
      | a :: rest => if a ∈ excluded then none else next rest
      | [] => none
  | atEnd, t, next => if t = [] then next t else none
  | seq p q, t, next => p.run t fun rest => q.run rest next
  | alt p q, t, next => p.run t next <|> q.run t next
  | many p, t, next => repeatMany (fun t next => p.run t next) next t.length t
  | few p, t, next => repeatFew (fun t next => p.run t next) next t.length t

/-- What follows the match of a pattern at the beginning of a text. -/
def rest? (p : Pattern) (t : Text) : Option Text := p.run t some

/-- Exactly this text. -/
def text : Text → Pattern
  | [] => empty
  | c :: t => seq (char c) (text t)

/-- Any character. -/
def any : Pattern := anyBut []

/-- A pattern, or else nothing. -/
def optional (p : Pattern) : Pattern := alt p empty

/-- The first of some patterns that fits. -/
def firstOf (ps : List Pattern) : Pattern := ps.foldr alt never

end Pattern

/-- The literals with this quote. A one-character quote is closed by the next one
that is no part of an escape, a triple quote by the next one; either may be left
open at the end of the text. -/
def Quote.pattern : Quote → Pattern
  | .single mark =>
      .seq (.char mark) <|
        .seq (.many (.alt (.seq (.char '\\') (.optional .any)) (.anyBut ['\\', mark]))) <|
          .alt (.char mark) .atEnd
  | .triple mark =>
      .seq (.text [mark, mark, mark]) <|
        .seq (.few .any) <| .alt (.text [mark, mark, mark]) .atEnd

/-- The line comments with this marker. -/
def lineCommentPattern (marker : Text) : Pattern := .seq (.text marker) (.many (.anyBut ['\n']))

namespace Grammar

/-- Does the opener of a block contain that of another block of the grammar? -/
def wrapsOther (g : Grammar) (b : Block) : Bool :=
  g.blocks.any fun other => other.opener ≠ b.opener ∧ Text.hasPart other.opener b.opener

/-- The block comments with these delimiters. Only a wrapper around another opener
has to be closed. -/
def blockPattern (g : Grammar) (b : Block) : Pattern :=
  .seq (.text b.opener) <|
    .seq (.few .any) <|
      if g.wrapsOther b then .text b.closer else .alt (.text b.closer) .atEnd

/-- The literals of a grammar. -/
def literalPattern (g : Grammar) : Pattern := .firstOf (g.quotes.map Quote.pattern)

/-- The comments of a grammar. -/
def commentPattern (g : Grammar) : Pattern :=
  .firstOf (g.blocks.map g.blockPattern ++ g.lineMarkers.map lineCommentPattern)

/-- The literal or comment that the patterns find at the beginning of a text, and
what follows it. -/
def matchAt? (g : Grammar) (t : Text) : Option (Token × Text) :=
  match g.literalPattern.rest? t with
  | some rest => some (.literal (t.take (t.length - rest.length)), rest)
  | none =>
      (g.commentPattern.rest? t).map fun rest =>
        (.comment (t.take (t.length - rest.length)), rest)

/-- Cut a text into the tokens that the patterns find, from left to right. -/
def patternTokens (g : Grammar) (t : Text) : List Token :=
  match t with
  | [] => []
  | c :: rest =>
      match g.matchAt? (c :: rest) with
      | some found =>
          if _h : found.2.length < (c :: rest).length then found.1 :: patternTokens g found.2
          else .plain c :: patternTokens g rest
      | none => .plain c :: patternTokens g rest
termination_by t.length
decreasing_by
  · assumption
  · exact Nat.lt_succ_self _
  · exact Nat.lt_succ_self _

end Grammar

end CleanDiff
