import CleanDiff.Json.Reader
import CleanDiff.Text.Blank

/-!
# Patterns for messages

A commit can be asked for by a pattern that its message has to hold. Patterns are
regular expressions over bytes, here written as the characters up to U+00FF:
characters and sets of them, `.` for all but a line end, `^` and `$` for the two
ends, repetition by `*`, `+`, `?` and counts in braces, alternatives, groups, and
the usual escapes. Only whether a message holds a match is ever asked, so a
repetition that takes as little as possible means the same as one that takes as
much as possible.
-/

namespace CleanDiff

/-- A pattern over bytes. -/
inductive MessagePattern
  | empty
  /-- Any one of these characters. -/
  | oneOf (set : Text)
  /-- The beginning of the message. -/
  | atStart
  /-- The end of the message; one line end at the very end may follow if it says so. -/
  | atEnd (beforeLineEnd : Bool)
  /-- A place with a word character on one side only, or any but such a place. -/
  | wordEdge (wanted : Bool)
  | seq (p q : MessagePattern)
  | alt (p q : MessagePattern)
  /-- A pattern at least and at most so many times. -/
  | times (p : MessagePattern) (least : Nat) (most : Option Nat)
  deriving DecidableEq, Repr

namespace MessagePattern

/-! ### Matching -/

/-- A place in a message: the character in front of it, and what follows. -/
abbrev Position := Option Char × Text

/-- A character of a word. -/
def isWordChar (c : Char) : Bool := c.isAlphanum || c = '_'

/-- Is there a word character on one side only? -/
def isWordEdge (p : Position) : Bool := p.1.any isWordChar != p.2.head?.any isWordChar

/-- The places that `n` rounds of a step lead to. -/
def rounds (step : Position → List Position) : Nat → List Position → List Position
  | 0, places => places
  | n + 1, places => rounds step n (places.flatMap step).eraseDups

/-- The places that at most `n` rounds of a step lead to. -/
def upToRounds (step : Position → List Position) : Nat → List Position → List Position
  | 0, places => places
  | n + 1, places => (places ++ upToRounds step n (places.flatMap step).eraseDups).eraseDups

/-- Where a match that begins at a place can end. -/
def ends : MessagePattern → Position → List Position
  | empty, p => [p]
  | oneOf set, (_, t) =>
      match t with
      | c :: rest => if set.contains c then [(some c, rest)] else []
      | [] => []
  | atStart, p => if p.1 = none then [p] else []
  | atEnd beforeLineEnd, p => if p.2 = [] || (beforeLineEnd && p.2 = ['\n']) then [p] else []
  | wordEdge wanted, p => if isWordEdge p = wanted then [p] else []
  | seq a b, p => ((ends a p).flatMap (ends b)).eraseDups
  | alt a b, p => (ends a p ++ ends b p).eraseDups
  | times a least most, p =>
      let more := match most with
        | some most => most - least
        | none => p.2.length
      upToRounds (ends a) more (rounds (ends a) least [p])

/-- Does a match begin at a place or behind it? -/
def matchesFrom (p : MessagePattern) (before : Option Char) : Text → Bool
  | [] => ends p (before, []) ≠ []
  | c :: rest => ends p (before, c :: rest) ≠ [] || matchesFrom p (some c) rest

/-- Does a message hold a match? -/
def isFoundIn (p : MessagePattern) (message : Text) : Bool := matchesFrom p none message

/-! ### Sets -/

/-- The characters that stand for bytes. -/
def allChars : Text := (List.range 256).map Char.ofNat

/-- The set of the characters with a property, or of all others. -/
def setOf (wanted : Bool) (isIn : Char → Bool) : Text := allChars.filter fun c => isIn c == wanted

/-- The sets that have letters of their own behind a backslash; a capital letter is
for all other characters. -/
def letterSet? (letter : Char) : Option Text :=
  match letter with
  | 'd' => some (setOf true Char.isDigit)
  | 'D' => some (setOf false Char.isDigit)
  | 'w' => some (setOf true isWordChar)
  | 'W' => some (setOf false isWordChar)
  | 's' => some (setOf true fun c => isAsciiBlank c.toNat)
  | 'S' => some (setOf false fun c => isAsciiBlank c.toNat)
  | 'h' => some ['\t', ' ', '\xa0']
  | 'H' => some (setOf false fun c => ['\t', ' ', '\xa0'].contains c)
  | 'N' => some (setOf false (· = '\n'))
  | _ => none

/-- The sets that have names between brackets and colons. -/
def namedSet? (name : String) : Option (Char → Bool) :=
  let isPrint := fun (c : Char) => ' ' ≤ c && c ≤ '~'
  match name with
  | "alpha" => some Char.isAlpha
  | "lower" => some Char.isLower
  | "upper" => some Char.isUpper
  | "alnum" => some Char.isAlphanum
  | "digit" => some Char.isDigit
  | "xdigit" => some fun c => (Json.hexValue? c).isSome
  | "space" => some fun c => isAsciiBlank c.toNat
  | "blank" => some fun c => c = ' ' || c = '\t'
  | "punct" => some fun c => isPrint c && c ≠ ' ' && !c.isAlphanum
  | "print" => some isPrint
  | "graph" => some fun c => isPrint c && c ≠ ' '
  | "cntrl" => some fun c => c < ' ' || c = '\x7f'
  | "word" => some isWordChar
  | "ascii" => some fun c => c < '\x80'
  | _ => none

/-- A set with the other case of every letter in it. -/
def bothCases (set : Text) : Text :=
  setOf true fun c => set.contains c.toLower || set.contains c.toUpper

/-! ### Reading -/

/-- Read an escape that stands for a single character, behind its backslash. -/
def readEscape : Text → Option (Char × Text)
  | 'n' :: rest => some ('\n', rest)
  | 't' :: rest => some ('\t', rest)
  | 'r' :: rest => some ('\r', rest)
  | 'f' :: rest => some ('\x0c', rest)
  | 'e' :: rest => some ('\x1b', rest)
  | 'a' :: rest => some ('\x07', rest)
  | 'x' :: rest =>
      let digits := (rest.take 2).takeWhile fun c => (Json.hexValue? c).isSome
      let code := digits.foldl (fun n c => n * 16 + (Json.hexValue? c).getD 0) 0
      some (Char.ofNat code, rest.drop digits.length)
  | c :: rest => if c.isDigit then none else some (c, rest)
  | [] => none

/-- Read one member of a set between brackets: a set of its own, or a single
character. -/
def readMember : Text → Option ((Text ⊕ Char) × Text)
  | '[' :: ':' :: rest =>
      let (inverted, rest) := match rest with
        | '^' :: rest => (true, rest)
        | _ => (false, rest)
      match rest.dropWhile Char.isAlpha with
      | ':' :: ']' :: after => do
          let isIn ← namedSet? (String.ofList (rest.takeWhile Char.isAlpha))
          return (.inl (setOf (!inverted) isIn), after)
      | _ => some (.inr '[', ':' :: rest)
  | '\\' :: 'b' :: rest => some (.inr '\x08', rest)
  | '\\' :: c :: rest =>
      match letterSet? c with
      | some set => some (.inl set, rest)
      | none => (readEscape (c :: rest)).map fun r => (.inr r.1, r.2)
  | ['\\'] => none
  | c :: rest => some (.inr c, rest)
  | [] => none

/-- Read a set up to its closing bracket, in at most `fuel` steps. A bracket that
closes it counts only behind its first member. -/
def readSet : Nat → Bool → Text → Option (Text × Text)
  | 0, _, _ => none
  | fuel + 1, isFirst, t =>
      match isFirst, t with
      | false, ']' :: rest => some ([], rest)
      | _, t => do
          let (member, rest) ← readMember t
          match member, rest with
          | .inl set, rest =>
              let (more, rest) ← readSet fuel false rest
              return (set ++ more, rest)
          | .inr low, '-' :: ']' :: rest => return ([low, '-'], rest)
          | .inr low, '-' :: rest => do
              match ← readMember rest with
              | (.inr high, rest) =>
                  if high < low then none
                  else
                    let (more, rest) ← readSet fuel false rest
                    return (setOf true (fun c => low ≤ c && c ≤ high) ++ more, rest)
              | (.inl set, rest) =>
                  let (more, rest) ← readSet fuel false rest
                  return (low :: '-' :: set ++ more, rest)
          | .inr c, rest =>
              let (more, rest) ← readSet fuel false rest
              return (c :: more, rest)

/-- The largest count of a repetition. -/
def maxCount : Nat := 65535

/-- Read counts in braces, behind the opening one: none if these are none. -/
def readCounts? (t : Text) : Option ((Nat × Option Nat) × Text) :=
  let low := t.takeWhile Char.isDigit
  if low = [] then none
  else
    let least := Json.natOfDigits low
    match t.dropWhile Char.isDigit with
    | '\x7d' :: rest => some ((least, some least), rest)
    | ',' :: '\x7d' :: rest => some ((least, none), rest)
    | ',' :: more =>
        let high := more.takeWhile Char.isDigit
        match high, more.dropWhile Char.isDigit with
        | _ :: _, '\x7d' :: rest => some ((least, some (Json.natOfDigits high)), rest)
        | _, _ => none
    | _ => none

/-- Read the sign of a repetition; what is repeated once has none. -/
def readRepeat? : Text → Option ((Nat × Option Nat) × Text)
  | '*' :: rest => some ((0, none), rest)
  | '+' :: rest => some ((1, none), rest)
  | '?' :: rest => some ((0, some 1), rest)
  | '\x7b' :: rest => readCounts? rest
  | _ => none

/-- Leave out the sign that says how eager a repetition is. -/
def withoutEagerness : Text → Text
  | '?' :: rest => rest
  | '+' :: rest => rest
  | t => t

/-- Does a pattern only say where in a message it is? -/
def isPlace : MessagePattern → Bool
  | atStart => true
  | atEnd _ => true
  | wordEdge _ => true
  | _ => false

/-- Repeat what has been read as the text behind it says; none if the counts make no
sense, or if there is no text to repeat. -/
def readRepeated? (p : MessagePattern) (t : Text) : Option (MessagePattern × Text) :=
  match readRepeat? t with
  | none => some (p, t)
  | some ((least, most), rest) =>
      if p.isPlace || maxCount < least || most.any (fun m => maxCount < m || m < least) then none
      else some (times p least most, withoutEagerness rest)

/-- A set as a pattern. -/
def ofSet (caseless : Bool) (set : Text) : MessagePattern :=
  oneOf (if caseless then bothCases set else set)

/-- Read the part of a pattern behind a backslash. -/
def readEscaped? (caseless : Bool) : Text → Option (MessagePattern × Text)
  | 'b' :: rest => some (wordEdge true, rest)
  | 'B' :: rest => some (wordEdge false, rest)
  | 'A' :: rest => some (atStart, rest)
  | 'z' :: rest => some (atEnd false, rest)
  | 'Z' :: rest => some (atEnd true, rest)
  | c :: rest =>
      match letterSet? c with
      | some set => some (oneOf set, rest)
      | none => (readEscape (c :: rest)).map fun r => (ofSet caseless [r.1], r.2)
  | [] => none

/-- Read alternatives up to the end of the text or a closing parenthesis, in at most
`fuel` steps, given what has been read of the first one. -/
def readFrom : Nat → Bool → MessagePattern → Text → Option (MessagePattern × Text)
  | 0, _, _, _ => none
  | fuel + 1, caseless, front, t =>
      let goOn := fun (p : MessagePattern) (rest : Text) => do
        let (p, rest) ← readRepeated? p rest
        readFrom fuel caseless (seq front p) rest
      match t with
      | [] => some (front, [])
      | ')' :: _ => some (front, t)
      | '|' :: rest => do
          let (other, rest) ← readFrom fuel caseless empty rest
          return (alt front other, rest)
      | '(' :: '?' :: 'i' :: ')' :: rest => readFrom fuel true front rest
      | '(' :: '?' :: '#' :: rest =>
          match rest.dropWhile (· ≠ ')') with
          | _ :: rest => readFrom fuel caseless front rest
          | [] => none
      | '(' :: rest => do
          let (caseless, inner) ← match rest with
            | '?' :: ':' :: inner => some (caseless, inner)
            | '?' :: 'i' :: ':' :: inner => some (true, inner)
            | '?' :: _ => none
            | inner => some (caseless, inner)
          match ← readFrom fuel caseless empty inner with
          | (p, ')' :: rest) => goOn p rest
          | _ => none
      | '[' :: rest => do
          let (inverted, rest) := match rest with
            | '^' :: rest => (true, rest)
            | _ => (false, rest)
          let (set, rest) ← readSet (rest.length + 1) true rest
          let set := if caseless then bothCases set else set
          goOn (oneOf (setOf (!inverted) set.contains)) rest
      | '\\' :: rest => do
          let (p, rest) ← readEscaped? caseless rest
          goOn p rest
      | '^' :: rest => goOn atStart rest
      | '$' :: rest => goOn (atEnd true) rest
      | '.' :: rest => goOn (oneOf (setOf false (· = '\n'))) rest
      | c :: rest =>
          if (readRepeat? t).isSome then none else goOn (ofSet caseless [c]) rest

/-- Bytes as characters. -/
def charsOf (bytes : Bytes) : Text := bytes.map fun b => Char.ofNat b.toNat

/-- Read a pattern; none if it is empty or no pattern. -/
def ofBytes? (bytes : Bytes) : Option MessagePattern :=
  if bytes = [] then none
  else
    match readFrom (2 * bytes.length + 2) false empty (charsOf bytes) with
    | some (p, []) => some p
    | _ => none

end MessagePattern

end CleanDiff
