import CleanDiff.Text.Basic

/-!
# JSON values

A JSON value as a tree. A number that is written with digits alone is a natural
number; of any other number only the way it is written is kept. An object keeps
its members in the order in which they were written, repeated keys included; a
reader that asks for a key gets the last member with it.
-/

namespace CleanDiff

/-- A JSON value. -/
inductive Json
  | null
  | bool (b : Bool)
  | nat (n : Nat)
  /-- A number with a sign, a fraction or an exponent, as it is written. -/
  | number (written : Text)
  | str (s : Text)
  | arr (items : List Json)
  | obj (members : List (Text × Json))
  deriving Inhabited

namespace Json

/-- The member of an object with this key; `null` for any other value and for a
key that is missing. -/
def get (v : Json) (key : Text) : Json :=
  match v with
  | .obj members => (members.reverse.lookup key).getD .null
  | _ => .null

/-- A string value. -/
def str? : Json → Option Text
  | .str s => some s
  | _ => none

/-- A truth value. -/
def bool? : Json → Option Bool
  | .bool b => some b
  | _ => none

/-- A natural number of at most 64 bits. -/
def word64? : Json → Option Nat
  | .nat n => if n < Nat.pow 2 64 then some n else none
  | _ => none

/-- The items of an array. -/
def arr? : Json → Option (List Json)
  | .arr items => some items
  | _ => none

/-- A list of strings. -/
def strs? (v : Json) : Option (List Text) := v.arr?.bind fun items => items.mapM str?

/-- A string value from a string. -/
def ofString (s : String) : Json := .str s.toList

/-- An object from its members. -/
def ofMembers (members : List (String × Json)) : Json :=
  .obj (members.map fun m => (m.1.toList, m.2))

end Json

end CleanDiff
