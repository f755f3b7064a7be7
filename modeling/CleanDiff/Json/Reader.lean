import CleanDiff.Json.Basic

/-!
# Reading JSON

A strict reader: the whole text is one value, blanks are the four that the
format names, a string holds no raw control character and no half of a surrogate
pair, a number has no leading zero and fits a double, and values nest at most
`maxDepth` deep.
-/

namespace CleanDiff.Json

/-- How deep arrays and objects may nest. -/
def maxDepth : Nat := 127

/-- A blank between the parts of a value. -/
def isSpace (c : Char) : Bool := c = ' ' || c = '\t' || c = '\n' || c = '\r'

/-- Leave out leading blanks. -/
def skip (t : Text) : Text := t.dropWhile isSpace

/-! ### Strings -/

/-- The value of a hexadecimal digit. -/
def hexValue? (c : Char) : Option Nat :=
  if '0' ≤ c ∧ c ≤ '9' then some (c.toNat - '0'.toNat)
  else if 'a' ≤ c ∧ c ≤ 'f' then some (c.toNat - 'a'.toNat + 10)
  else if 'A' ≤ c ∧ c ≤ 'F' then some (c.toNat - 'A'.toNat + 10)
  else none

/-- The value of four hexadecimal digits. -/
def hex4? (a b c d : Char) : Option Nat := do
  let a ← hexValue? a
  let b ← hexValue? b
  let c ← hexValue? c
  let d ← hexValue? d
  return ((a * 16 + b) * 16 + c) * 16 + d

/-- The character that a one-letter escape stands for. -/
def shortEscape? : Char → Option Char
  | '"' => some '"'
  | '\\' => some '\\'
  | '/' => some '/'
  | 'b' => some '\x08'
  | 'f' => some '\x0c'
  | 'n' => some '\n'
  | 'r' => some '\r'
  | 't' => some '\t'
  | _ => none

/-- Is the number the first half of a surrogate pair? -/
def isHighHalf (n : Nat) : Bool := 0xD800 ≤ n && n < 0xDC00

/-- Is the number the second half of a surrogate pair? -/
def isLowHalf (n : Nat) : Bool := 0xDC00 ≤ n && n < 0xE000

/-- Read a string behind its opening quote, and what follows its closing one. -/
def readString : Text → Option (Text × Text)
  | [] => none
  | '"' :: rest => some ([], rest)
  | '\\' :: 'u' :: a :: b :: c :: d :: rest => do
      let n ← hex4? a b c d
      if isHighHalf n then
        match rest with
        | '\\' :: 'u' :: a' :: b' :: c' :: d' :: rest' => do
            let m ← hex4? a' b' c' d'
            if isLowHalf m then
              let (s, after) ← readString rest'
              return (Char.ofNat (0x10000 + (n - 0xD800) * 0x400 + (m - 0xDC00)) :: s, after)
            else none
        | _ => none
      else if isLowHalf n then none
      else
        let (s, after) ← readString rest
        return (Char.ofNat n :: s, after)
  | '\\' :: e :: rest => do
      let c ← shortEscape? e
      let (s, after) ← readString rest
      return (c :: s, after)
  | c :: rest =>
      if c = '\\' ∨ c.toNat < 0x20 then none
      else do
        let (s, after) ← readString rest
        return (c :: s, after)

/-! ### Numbers -/

/-- The number written by a list of decimal digits. -/
def natOfDigits (ds : Text) : Nat := ds.foldl (fun n c => n * 10 + (c.toNat - '0'.toNat)) 0

/-- Does `digits * 10 ^ exponent` lie beyond the range of a double? -/
def overflows (digits : Text) (exponent : Int) : Bool :=
  let m := natOfDigits digits
  let size : Int := (Nat.toDigits 10 m).length + exponent
  let limit := Nat.pow 2 1024 - Nat.pow 2 970
  if m = 0 ∨ size < 300 then false
  else if 320 < size then true
  else if 0 ≤ exponent then limit ≤ m * Nat.pow 10 exponent.toNat
  else limit * Nat.pow 10 (-exponent).toNat ≤ m

/-- Decimal digits at the head of a text, and what follows them. -/
def spanDigits (t : Text) : Text × Text := (t.takeWhile Char.isDigit, t.dropWhile Char.isDigit)

/-- The exponent part of a number: how it is written, its value, and what
follows; none if it is broken off. -/
def readExponent (t : Text) : Option (Text × Int × Text) :=
  match t with
  | e :: rest =>
      if e = 'e' ∨ e = 'E' then
        let (sign, body) :=
          match rest with
          | '+' :: body => (['+'], body)
          | '-' :: body => (['-'], body)
          | body => ([], body)
        let (ds, after) := spanDigits body
        let size : Int := natOfDigits ds
        if ds = [] then none
        else some (e :: (sign ++ ds), if sign = ['-'] then -size else size, after)
      else some ([], 0, t)
  | [] => some ([], 0, t)

/-- The fraction of a number: its digits and what follows; none if it is broken
off. -/
def readFraction (t : Text) : Option (Text × Text) :=
  match t with
  | '.' :: rest =>
      let (ds, after) := spanDigits rest
      if ds = [] then none else some (ds, after)
  | _ => some ([], t)

/-- Read a number. -/
def readNumber (t : Text) : Option (Json × Text) := do
  let (sign, body) := match t with
    | '-' :: body => (['-'], body)
    | body => ([], body)
  let (ds, rest) := spanDigits body
  if ds = [] ∨ (ds.head? = some '0' ∧ 1 < ds.length) then none
  else
    let (fraction, rest) ← readFraction rest
    let (mark, exponent, rest) ← readExponent rest
    if overflows (ds ++ fraction) (exponent - fraction.length) then none
    else if sign = [] ∧ fraction = [] ∧ mark = [] then return (.nat (natOfDigits ds), rest)
    else
      let point := if fraction = [] then [] else '.' :: fraction
      return (.number (sign ++ ds ++ point ++ mark), rest)

/-! ### Values -/

mutual

/-- Read a value, in at most `fuel` steps and with `depth` levels left. -/
def readValue (fuel depth : Nat) (t : Text) : Option (Json × Text) :=
  match fuel with
  | 0 => none
  | fuel + 1 =>
      match skip t with
      | 'n' :: 'u' :: 'l' :: 'l' :: rest => some (.null, rest)
      | 't' :: 'r' :: 'u' :: 'e' :: rest => some (.bool true, rest)
      | 'f' :: 'a' :: 'l' :: 's' :: 'e' :: rest => some (.bool false, rest)
      | '"' :: rest => (readString rest).map fun r => (.str r.1, r.2)
      | '[' :: rest =>
          if depth = 0 then none
          else
            match skip rest with
            | ']' :: after => some (.arr [], after)
            | _ => (readItems fuel (depth - 1) rest).map fun r => (.arr r.1, r.2)
      | '\x7b' :: rest =>
          if depth = 0 then none
          else
            match skip rest with
            | '\x7d' :: after => some (.obj [], after)
            | _ => (readMembers fuel (depth - 1) rest).map fun r => (.obj r.1, r.2)
      | body => readNumber body

/-- Read the items of an array, up to its closing bracket. -/
def readItems (fuel depth : Nat) (t : Text) : Option (List Json × Text) :=
  match fuel with
  | 0 => none
  | fuel + 1 =>
      match readValue fuel depth t with
      | none => none
      | some (v, rest) =>
          match skip rest with
          | ',' :: rest => (readItems fuel depth rest).map fun r => (v :: r.1, r.2)
          | ']' :: rest => some ([v], rest)
          | _ => none

/-- Read the members of an object, up to its closing brace. -/
def readMembers (fuel depth : Nat) (t : Text) : Option (List (Text × Json) × Text) :=
  match fuel with
  | 0 => none
  | fuel + 1 =>
      match skip t with
      | '"' :: rest =>
          match readString rest with
          | none => none
          | some (key, rest) =>
              match skip rest with
              | ':' :: rest =>
                  match readValue fuel depth rest with
                  | none => none
                  | some (v, rest) =>
                      match skip rest with
                      | ',' :: rest =>
                          (readMembers fuel depth rest).map fun r => ((key, v) :: r.1, r.2)
                      | '\x7d' :: rest => some ([(key, v)], rest)
                      | _ => none
              | _ => none
      | _ => none

end

/-- Read a text that is one JSON value. Every step takes a character, so twice
the length of the text is enough of them. -/
def parse? (t : Text) : Option Json :=
  match readValue (2 * t.length + 2) maxDepth t with
  | some (v, rest) => if skip rest = [] then some v else none
  | none => none

end CleanDiff.Json
