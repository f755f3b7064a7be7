import CleanDiff.Disk.Basic
import CleanDiff.Json.Reader
import CleanDiff.Text.Blank

/-!
# Settings of a repository

A repository keeps its settings in a file of sections and variables. A section
begins with a header such as `[core]` or `[branch "main"]`, and a variable under
it is a name with a value, as in `bare = true`, or a name alone. The *key* of a
variable is made of both, as in `core.bare`; case does not count in it but for
the part between quotes. Comments begin with `;` or `#`, quotes in a value are
left out and keep comment signs from counting, and a line that ends in a
backslash goes on in the next one. A file with anything else in it is refused as a
whole.

The last value of a key counts. A file may include others, whose variables stand
behind the line that names them.
-/

namespace CleanDiff

/-- The variables of a settings file in their order: keys with their values. A
name that stands alone has none. -/
abbrev Settings := List (Text × Option Text)

namespace Settings

/-- The lower case of an ASCII letter. -/
def lowerChar (c : Char) : Char := if c.isUpper then Char.ofNat (c.toNat + 32) else c

/-- A character of a name. -/
def isNameChar (c : Char) : Bool := c.isAlphanum || c = '-'

def isSpace (c : Char) : Bool := isAsciiBlank c.toNat

/-- A text without the blanks at its end. -/
def trimEnd (t : Text) : Text := (t.reverse.dropWhile isSpace).reverse

/-! ### Headers -/

/-- Read the part of a header between quotes, behind the first one, up to the
bracket that closes the header. -/
def readQuotedPart : Text → Option (Text × Text)
  | '"' :: ']' :: rest => some ([], rest)
  | '"' :: _ => none
  | ['\\'] => none
  | '\\' :: c :: rest => (readQuotedPart rest).map fun r => (c :: r.1, r.2)
  | c :: rest => (readQuotedPart rest).map fun r => (c :: r.1, r.2)
  | [] => none

/-- Read a header behind its opening bracket: the section, and what follows. -/
def readHeader (t : Text) : Option (Text × Text) :=
  let isPart := fun c => isNameChar c || c = '.'
  let heading := (t.takeWhile isPart).map lowerChar
  match t.dropWhile isPart with
  | ']' :: rest => if heading = [] then none else some (heading, rest)
  | c :: rest =>
      if isSpace c then
        match rest.dropWhile isSpace with
        | '"' :: rest => (readQuotedPart rest).map fun r => (heading ++ '.' :: r.1, r.2)
        | _ => none
      else none
  | [] => none

/-! ### Values -/

/-- A line up to its comment. A comment sign does not count between quotes or
behind a backslash. `quotes` counts the quotes so far, `escaped` says whether an
odd number of backslashes is in front, and `joined` whether any is. -/
def withoutComment (quotes : Nat) (escaped joined : Bool) : Text → Text × Nat
  | [] => ([], quotes)
  | c :: rest =>
      let quotes := if c = '"' && !joined then quotes + 1 else quotes
      if (c = ';' || c = '#') && quotes % 2 = 0 && !escaped then ([], quotes)
      else
        let (kept, quotes) := withoutComment quotes (c = '\\' && !escaped) (c = '\\') rest
        (c :: kept, quotes)

/-- A line without its comment and the blanks at its end, and the quotes so far. -/
def code (quotes : Nat) (line : Text) : Text × Nat :=
  let (kept, quotes) := withoutComment quotes false false line
  (trimEnd kept, quotes)

/-- The value that a piece of a line writes, and whether it goes on in the next
line. -/
def readValue : Text → Option (Text × Bool)
  | [] => some ([], false)
  | ['\\'] => some ([], true)
  | '\\' :: c :: rest => do
      let meant ← [('n', '\n'), ('t', '\t'), ('b', '\x08'), ('"', '"'), ('\\', '\\')].lookup c
      let (value, more) ← readValue rest
      return (meant :: value, more)
  | c :: rest => do
      let (value, more) ← readValue rest
      return (if c = '"' then value else c :: value, more)

/-- Read the rest of a value from the lines below; a line with no more than a
comment is passed over. -/
def readMore (quotes : Nat) : List Text → Option (Text × List Text)
  | [] => some ([], [])
  | line :: rest =>
      let (body, quotes) := code quotes line
      if body = [] then readMore quotes rest
      else do
        let (value, more) ← readValue body
        if more then
          let (further, rest) ← readMore quotes rest
          return (value ++ further, rest)
        else return (value, rest)

/-! ### Files -/

/-- Read a variable: its name, its value, and the lines below it. -/
def readVariable (line : Text) (below : List Text) :
    Option ((Text × Option Text) × List Text) :=
  let (body, quotes) := code 0 line
  let name := (body.takeWhile isNameChar).map lowerChar
  if name = [] then none
  else
    match (body.dropWhile isNameChar).dropWhile isSpace with
    | [] => some ((name, none), below)
    | '=' :: rest => do
        let (value, more) ← readValue (rest.dropWhile isSpace)
        if more then
          let (further, below) ← readMore quotes below
          return ((name, some (value ++ further)), below)
        else return ((name, some value), below)
    | _ => none

/-- Read lines under a section, in at most `fuel` steps. What follows a header on
its line is read as a line of its own. -/
def readLines : Nat → Text → List Text → Option Settings
  | _, _, [] => some []
  | 0, _, _ => none
  | fuel + 1, heading, line :: below =>
      match line.dropWhile isSpace with
      | [] => readLines fuel heading below
      | ';' :: _ => readLines fuel heading below
      | '#' :: _ => readLines fuel heading below
      | '[' :: rest => do
          let (heading, rest) ← readHeader rest
          readLines fuel heading (rest :: below)
      | body => do
          let ((name, value), below) ← readVariable body below
          let key := if heading = [] then name else heading ++ '.' :: name
          return (key, value) :: (← readLines fuel heading below)

/-- Read the content of a settings file; none if it is not one. -/
def parse? (content : Text) : Option Settings :=
  let body := match content with
    | '\uFEFF' :: rest => rest
    | _ => content
  readLines (2 * body.length + 2) [] (body.splitOn '\n')

/-- How deep files may include one another. -/
def maxDepth : Nat := 10

/-- The file that a variable of a settings file includes, seen from that file. -/
def included? (file : Path) (entry : Text × Option Text) : Option Path :=
  if entry.1 = "include.path".toList then
    entry.2.map (file.parent?.getD ⟨[]⟩).append
  else none

/-- The settings of a file with those of the files that it includes, at most
`depth` deep. A file that is not there has none. -/
def read? (d : Disk) : Nat → Path → Option Settings
  | 0, _ => none
  | depth + 1, path =>
      match d.look true path.toBytes with
      | .error .noSuchFile => some []
      | .error .notADirectory => some []
      | .error _ => none
      | .ok (.file content mode) =>
          if !(Node.file content mode).isReadable then none
          else do
            let own ← parse? (Utf8.decodeLossy content)
            let parts ← own.mapM fun entry =>
              match included? path entry with
              | some file => (read? d depth file).map (entry :: ·)
              | none => some [entry]
            return parts.flatten
      | .ok _ => some []

/-! ### Values of keys -/

/-- The last value of a key, if the key is there at all. -/
def get? (s : Settings) (key : String) : Option (Option Text) :=
  (s.reverse.find? fun v => v.1 = key.toList).map Prod.snd

/-- The digits of a number in some base. -/
def readDigits? (base : Nat) (t : Text) : Option (Nat × Text) :=
  let isDigit := fun c => (Json.hexValue? c).any (· < base)
  let digits := t.takeWhile isDigit
  if digits = [] then none
  else
    let n := digits.foldl (fun n c => n * base + (Json.hexValue? c).getD 0) 0
    some (n, t.dropWhile isDigit)

/-- A whole number: decimal, octal behind `0` or hexadecimal behind `0x`, and
perhaps a unit `k`, `m` or `g`. -/
def number? (t : Text) : Option Int := do
  let t := t.dropWhile isSpace
  let (sign, t) := match t with
    | '-' :: rest => ((-1 : Int), rest)
    | '+' :: rest => (1, rest)
    | _ => (1, t)
  let (n, rest) ← match t with
    | '0' :: 'x' :: rest => readDigits? 16 rest
    | '0' :: 'X' :: rest => readDigits? 16 rest
    | '0' :: _ => readDigits? 8 t
    | _ => readDigits? 10 t
  let unit ← [([], 1), (['k'], 1024), (['m'], 1048576), (['g'], 1073741824)].lookup
    (rest.map lowerChar)
  let value := sign * Int.ofNat (n * unit)
  if -2147483648 ≤ value ∧ value ≤ 2147483647 then some value else none

/-- A truth value: a word or a number, and true if there is no value. -/
def bool? : Option Text → Option Bool
  | none => some true
  | some t =>
      let word := String.ofList (t.map lowerChar)
      if ["true", "yes", "on"].contains word then some true
      else if ["false", "no", "off", ""].contains word then some false
      else (number? t).map (· ≠ 0)

end Settings

end CleanDiff
