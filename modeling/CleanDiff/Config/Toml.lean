import CleanDiff.Config.Moment

/-!
# Reading TOML

The part of TOML that settings are written in: a document is a list of
statements, each a table header or an assignment, and a value is a string, a
list of strings, an inline table of strings or a date. A document with any other
value is refused, as no setting takes one; so is one with an array of tables. Within
that part the reader follows version 1.0 of the format to the letter: a line
ends in `\n` or `\r\n` only, control characters stand nowhere, an inline table
stays on its line and has no comma behind its last member.

A reader of a construct takes the text and gives back what it read and what
follows it.
-/

namespace CleanDiff.Toml

/-- A key, as the list of its dotted parts. -/
abbrev Key := List Text

/-- A value that a setting can have. -/
inductive Value
  | str (s : Text)
  | strs (items : List Text)
  | table (members : List (Key × Text))
  | moment (m : Moment)
  deriving DecidableEq, Repr

/-- A statement of a document. -/
inductive Statement
  | header (key : Key)
  | assign (key : Key) (value : Value)
  deriving DecidableEq, Repr

/-! ### Blanks, line ends and comments -/

/-- A blank within a line. -/
def isSpace (c : Char) : Bool := c = ' ' || c = '\t'

/-- Leave out blanks within a line. -/
def skip (t : Text) : Text := t.dropWhile isSpace

/-- A character that may stand in a comment, and in any string but for its
quotes and escapes: no control character other than the tab. -/
def isPlain (c : Char) : Bool := c = '\t' || (0x20 ≤ c.toNat && c.toNat ≠ 0x7F)

/-- What follows a line end. -/
def lineEnd? : Text → Option Text
  | '\n' :: rest => some rest
  | '\r' :: '\n' :: rest => some rest
  | _ => none

/-- Leave out a comment. -/
def skipComment : Text → Text
  | '#' :: rest => rest.dropWhile isPlain
  | t => t

/-- Leave out blanks, comments and line ends, in at most `fuel` steps. -/
def skipFiller : Nat → Text → Text
  | 0, t => t
  | fuel + 1, t =>
      let behind := skipComment (skip t)
      match lineEnd? behind with
      | some rest => skipFiller fuel rest
      | none => behind

/-- What follows the end of a statement: blanks, a comment, and the end of the
line or of the document. -/
def endStatement? (t : Text) : Option Text :=
  match skipComment (skip t) with
  | [] => some []
  | rest => lineEnd? rest

/-! ### Strings -/

/-- The value of a hexadecimal digit. -/
def hexValue? (c : Char) : Option Nat :=
  if '0' ≤ c ∧ c ≤ '9' then some (c.toNat - '0'.toNat)
  else if 'a' ≤ c ∧ c ≤ 'f' then some (c.toNat - 'a'.toNat + 10)
  else if 'A' ≤ c ∧ c ≤ 'F' then some (c.toNat - 'A'.toNat + 10)
  else none

/-- The character whose code is written in these hexadecimal digits. -/
def codePoint? (digits : Text) : Option Char := do
  let n ← digits.foldlM (fun n c => (hexValue? c).map (n * 16 + ·)) 0
  if n.isValidChar then some (Char.ofNat n) else none

/-- The character that an escape stands for, and what follows it; the backslash
is already read. -/
def escape? : Text → Option (Char × Text)
  | 'b' :: rest => some ('\x08', rest)
  | 't' :: rest => some ('\t', rest)
  | 'n' :: rest => some ('\n', rest)
  | 'f' :: rest => some ('\x0c', rest)
  | 'r' :: rest => some ('\r', rest)
  | '"' :: rest => some ('"', rest)
  | '\\' :: rest => some ('\\', rest)
  | 'u' :: rest => readCode 4 rest
  | 'U' :: rest => readCode 8 rest
  | _ => none
where
  /-- Read a code of so many digits. -/
  readCode (count : Nat) (t : Text) : Option (Char × Text) :=
    if (t.take count).length = count then
      (codePoint? (t.take count)).map fun c => (c, t.drop count)
    else none

/-- Read a string of one line between double quotes, behind the first one. -/
def readBasic : Nat → Text → Option (Text × Text)
  | _, '"' :: rest => some ([], rest)
  | fuel + 1, '\\' :: rest => do
      let (c, rest) ← escape? rest
      let (s, rest) ← readBasic fuel rest
      return (c :: s, rest)
  | fuel + 1, c :: rest =>
      if isPlain c then do
        let (s, rest) ← readBasic fuel rest
        return (c :: s, rest)
      else none
  | _, _ => none

/-- Read a string of one line between single quotes, behind the first one. -/
def readLiteral (t : Text) : Option (Text × Text) :=
  let inside := fun c => isPlain c && c ≠ '\''
  match t.dropWhile inside with
  | '\'' :: rest => some (t.takeWhile inside, rest)
  | _ => none

/-- What follows a backslash at the end of a line: the line break and all blanks
and line breaks behind it are left out. -/
def joinLine? (t : Text) : Option Text :=
  (lineEnd? (skip t)).map fun rest => skipBreaks rest.length rest
where
  /-- Leave out blanks and line ends. -/
  skipBreaks : Nat → Text → Text
    | 0, t => skip t
    | fuel + 1, t =>
        match lineEnd? (skip t) with
        | some rest => skipBreaks fuel rest
        | none => skip t

/-- The quotes that close a string of several lines, and what follows them: three
of them, with up to two more in front that belong to the string. -/
def closing? (quote : Char) (t : Text) : Option (Text × Text) :=
  let count := min 5 (t.takeWhile (· = quote)).length
  if 3 ≤ count then some (List.replicate (count - 3) quote, t.drop count) else none

/-- Read a string of several lines, behind its first quotes. With `escapes` it
stands between double quotes and knows escapes, without between single ones. -/
def readBlock (quote : Char) (escapes : Bool) : Nat → Text → Option (Text × Text)
  | 0, _ => none
  | fuel + 1, t =>
      match closing? quote t with
      | some found => some found
      | none =>
          match t with
          | [] => none
          | c :: rest =>
              if c = '\\' ∧ escapes then
                match joinLine? rest with
                | some rest => readBlock quote escapes fuel rest
                | none => do
                    let (c, rest) ← escape? rest
                    let (s, rest) ← readBlock quote escapes fuel rest
                    return (c :: s, rest)
              else
                match lineEnd? t with
                | some rest => do
                    let (s, rest) ← readBlock quote escapes fuel rest
                    return ('\n' :: s, rest)
                | none =>
                    if isPlain c then do
                      let (s, rest) ← readBlock quote escapes fuel rest
                      return (c :: s, rest)
                    else none

/-- A line end right behind the first quotes is not part of the string. -/
def skipFirstBreak (t : Text) : Text := (lineEnd? t).getD t

/-- Read a string of any of the four kinds. -/
def readString : Text → Option (Text × Text)
  | '"' :: '"' :: '"' :: rest => readBlock '"' true (rest.length + 1) (skipFirstBreak rest)
  | '\'' :: '\'' :: '\'' :: rest => readBlock '\'' false (rest.length + 1) (skipFirstBreak rest)
  | '"' :: rest => readBasic rest.length rest
  | '\'' :: rest => readLiteral rest
  | _ => none

/-! ### Keys and values -/

/-- A character of a key that needs no quotes. -/
def isBare (c : Char) : Bool := c.isAlphanum || c = '_' || c = '-'

/-- Read one part of a key: bare, or a string of one line. -/
def readPart (t : Text) : Option (Text × Text) :=
  match t with
  | '"' :: rest => readBasic rest.length rest
  | '\'' :: rest => readLiteral rest
  | _ =>
      let name := t.takeWhile isBare
      if name = [] then none else some (name, t.dropWhile isBare)

/-- Read a key, with blanks around its parts. -/
def readKey : Nat → Text → Option (Key × Text)
  | 0, _ => none
  | fuel + 1, t => do
      let (part, rest) ← readPart (skip t)
      match skip rest with
      | '.' :: rest =>
          let (key, rest) ← readKey fuel rest
          return (part :: key, rest)
      | rest => return ([part], rest)

/-- Read the items of a list, up to its closing bracket. -/
def readItems : Nat → Text → Option (List Text × Text)
  | 0, _ => none
  | fuel + 1, t =>
      match skipFiller t.length t with
      | ']' :: rest => some ([], rest)
      | body => do
          let (s, rest) ← readString body
          match skipFiller rest.length rest with
          | ',' :: rest =>
              let (items, rest) ← readItems fuel rest
              return (s :: items, rest)
          | ']' :: rest => return ([s], rest)
          | _ => none

/-- Read the assignment of a string, up to the string's end. -/
def readMember (t : Text) : Option ((Key × Text) × Text) := do
  let (key, rest) ← readKey t.length t
  match rest with
  | '=' :: rest =>
      let (s, rest) ← readString (skip rest)
      return ((key, s), rest)
  | _ => none

/-- Read the members of an inline table, up to its closing brace. -/
def readMembers : Nat → Text → Option (List (Key × Text) × Text)
  | 0, _ => none
  | fuel + 1, t => do
      let (m, rest) ← readMember t
      match skip rest with
      | ',' :: rest =>
          let (members, rest) ← readMembers fuel rest
          return (m :: members, rest)
      | '\x7d' :: rest => return ([m], rest)
      | _ => none

/-- Read a value. -/
def readValue (t : Text) : Option (Value × Text) :=
  match t with
  | '[' :: rest => (readItems t.length rest).map fun r => (.strs r.1, r.2)
  | '\x7b' :: rest =>
      match skip rest with
      | '\x7d' :: rest => some (.table [], rest)
      | _ => (readMembers t.length rest).map fun r => (.table r.1, r.2)
  | _ =>
      match readString t with
      | some (s, rest) => some (.str s, rest)
      | none => (Moment.read t).map fun r => (.moment r.1, r.2)

/-! ### Documents -/

/-- Read a table header or an assignment. -/
def readStatement (t : Text) : Option (Statement × Text) :=
  match t with
  | '[' :: rest => do
      let (key, rest) ← readKey rest.length rest
      match rest with
      | ']' :: rest => return (.header key, rest)
      | _ => none
  | _ => do
      let (key, rest) ← readKey t.length t
      match rest with
      | '=' :: rest =>
          let (value, rest) ← readValue (skip rest)
          return (.assign key value, rest)
      | _ => none

/-- Read the statements of a document, in at most `fuel` steps. -/
def readStatements : Nat → Text → Option (List Statement)
  | 0, _ => none
  | fuel + 1, t =>
      match skipFiller t.length t with
      | [] => some []
      | body => do
          let (statement, rest) ← readStatement body
          return statement :: (← readStatements fuel (← endStatement? rest))

/-- Read a document; a byte order mark in front of it is left out. -/
def parse? (t : Text) : Option (List Statement) :=
  let body := match t with
    | '\uFEFF' :: rest => rest
    | _ => t
  readStatements (body.length + 1) body

end CleanDiff.Toml
