import CleanDiff.Json.Basic

/-!
# Writing JSON

Two layouts: `compact` on one line without blanks, and `pretty` with one member
or item a line, two blanks for each level. In both, an empty array or object is
written without anything inside, members stand in the order of the value, and
every character but quotes, backslashes and control characters is written as it
is.
-/

namespace CleanDiff.Json

/-- The lower-case hexadecimal digit of a number below sixteen. -/
def hexDigit (n : Nat) : Char :=
  if n < 10 then Char.ofNat (n + '0'.toNat) else Char.ofNat (n - 10 + 'a'.toNat)

/-- A character inside a string literal. -/
def escape (c : Char) : Text :=
  match c with
  | '"' => ['\\', '"']
  | '\\' => ['\\', '\\']
  | '\x08' => ['\\', 'b']
  | '\x0c' => ['\\', 'f']
  | '\n' => ['\\', 'n']
  | '\r' => ['\\', 'r']
  | '\t' => ['\\', 't']
  | c =>
      if c.toNat < 0x20 then ['\\', 'u', '0', '0', hexDigit (c.toNat / 16), hexDigit (c.toNat % 16)]
      else [c]

/-- A string literal. -/
def quote (s : Text) : Text := '"' :: (s.flatMap escape ++ ['"'])

/-- The decimal digits of a natural number. -/
def digits (n : Nat) : Text := Nat.toDigits 10 n

mutual

/-- A value on one line. -/
def compact : Json → Text
  | .null => ['n', 'u', 'l', 'l']
  | .bool true => ['t', 'r', 'u', 'e']
  | .bool false => ['f', 'a', 'l', 's', 'e']
  | .nat n => digits n
  | .number written => written
  | .str s => quote s
  | .arr items => '[' :: (compactItems items ++ [']'])
  | .obj members => '\x7b' :: (compactMembers members ++ ['\x7d'])

/-- The items of an array, with commas between them. -/
def compactItems : List Json → Text
  | [] => []
  | [v] => compact v
  | v :: rest => compact v ++ ',' :: compactItems rest

/-- The members of an object, with commas between them. -/
def compactMembers : List (Text × Json) → Text
  | [] => []
  | [(key, v)] => quote key ++ ':' :: compact v
  | (key, v) :: rest => quote key ++ ':' :: (compact v ++ ',' :: compactMembers rest)

end

/-- A new line at a level. -/
def newline (level : Nat) : Text := '\n' :: List.replicate (2 * level) ' '

mutual

/-- A value laid out over several lines, with its first line at `level`. -/
def prettyAt (level : Nat) : Json → Text
  | .arr [] => ['[', ']']
  | .arr items => '[' :: (prettyItems (level + 1) items ++ newline level ++ [']'])
  | .obj [] => ['\x7b', '\x7d']
  | .obj members => '\x7b' :: (prettyMembers (level + 1) members ++ newline level ++ ['\x7d'])
  | .null => compact .null
  | .bool b => compact (.bool b)
  | .nat n => compact (.nat n)
  | .number written => compact (.number written)
  | .str s => compact (.str s)

/-- The items of an array, each on a line of its own. -/
def prettyItems (level : Nat) : List Json → Text
  | [] => []
  | [v] => newline level ++ prettyAt level v
  | v :: rest => newline level ++ prettyAt level v ++ ',' :: prettyItems level rest

/-- The members of an object, each on a line of its own. -/
def prettyMembers (level : Nat) : List (Text × Json) → Text
  | [] => []
  | [(key, v)] => newline level ++ quote key ++ ':' :: ' ' :: prettyAt level v
  | (key, v) :: rest =>
      newline level ++ quote key ++
        ':' :: ' ' :: (prettyAt level v ++ ',' :: prettyMembers level rest)

end

/-- A value laid out over several lines. -/
def pretty (v : Json) : Text := prettyAt 0 v

end CleanDiff.Json
