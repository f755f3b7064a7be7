import CleanDiff.Text.Utf8

/-!
# Names of references

A reference has a name such as `refs/heads/main`: parts with slashes between them.
A name of one part is in capital letters, as `HEAD` is; such a part does not begin
a longer name. Most references can be called by a shorter name, which stands for
the first of several full names that exists.
-/

namespace CleanDiff

/-- The name of a reference, as bytes. -/
abbrev RefName := Bytes

namespace RefName

/-- A plain string as a name. -/
def ofString (s : String) : RefName := Utf8.encode s.toList

/-- The name of the reference that says what is checked out. -/
def head : RefName := ofString "HEAD"

/-- The parts of a name. -/
def parts (name : RefName) : List Bytes := name.splitOn 0x2F

/-- May this part stand alone: capital letters, with underscores only inside? -/
def isTop (part : Bytes) : Bool :=
  let underscore : UInt8 := 0x5F
  part ≠ [] && part.head? ≠ some underscore && part.getLast? ≠ some underscore &&
    part.all fun b => (0x41 ≤ b && b ≤ 0x5A) || b = underscore

/-- The bytes that no name holds, besides the blank and those below it. -/
def refused : Bytes := ofString "~^:\\?[*"

/-- Do the bytes hold this one and then that one? -/
def hasPair (first second : UInt8) : Bytes → Bool
  | a :: b :: rest => (a = first && b = second) || hasPair first second (b :: rest)
  | _ => false

/-- May this be a part of a name? -/
def isPart (part : Bytes) : Bool :=
  let dot : UInt8 := 0x2E
  part ≠ [] && part.head? ≠ some dot &&
    part.all (fun b => 0x20 < b && !refused.contains b) &&
    !hasPair dot dot part && !hasPair 0x40 0x7B part &&
    !(ofString ".lock").isSuffixOf part

/-- The longest name. -/
def maxLength : Nat := 1023

/-- May a reference have this name? -/
def isValid (name : RefName) : Bool :=
  name.parts.all isPart && name.getLast? ≠ some 0x2E &&
    match name.parts with
    | [single] => isTop single
    | first :: _ => !isTop first
    | [] => false

/-- Where a reference with a short name is looked for: the bytes in front of the
name, and those behind it. -/
def forms : List (String × String) :=
  [("", ""), ("refs/", ""), ("refs/tags/", ""), ("refs/heads/", ""), ("refs/remotes/", ""),
    ("refs/remotes/", "/HEAD")]

/-- The full names that a short one can stand for. No name at all, and `@`, stand
for `HEAD`. -/
def expansions (short : RefName) : List RefName :=
  if short = [] ∨ short = ofString "@" then [head]
  else forms.map fun form => ofString form.1 ++ short ++ ofString form.2

/-- The part of a branch's name that is its own. -/
def branch? (name : RefName) : Option Bytes :=
  let lead := ofString "refs/heads/"
  if lead.isPrefixOf name then some (name.drop lead.length) else none

/-- Is the reference one of a single working tree, where several have the others in
common? -/
def isPrivate (name : RefName) : Bool :=
  !(ofString "refs/").isPrefixOf name || (ofString "refs/bisect/").isPrefixOf name

end RefName

end CleanDiff
