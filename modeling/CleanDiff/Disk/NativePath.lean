import CleanDiff.Path

/-!
# Parts of a path as the file system sees it

A written path is a list of components. Repeated slashes, slashes at the end and
components `.` other than a first one do not count. A path is cut between its
last component and the rest: its *parent*, as it is written, and its *entry
name*, which `..` and a leading `.` do not have.

The rules look at slashes and dots alone, so they are the same for texts and for
byte strings; the functions in `Components` take the two signs as arguments.
-/

namespace CleanDiff

namespace Components

variable {α : Type} [DecidableEq α]

/-- Take slashes and `/.` off the end of a path that is given in reverse; the
first component and the slash of the root stay. -/
def trimReversed (slash dot : α) : List α → List α
  | [] => []
  | [c] => [c]
  | c :: c' :: rest =>
      if c = slash then trimReversed slash dot (c' :: rest)
      else if c = dot ∧ c' = slash then
        if rest = [] then [c'] else trimReversed slash dot rest
      else c :: c' :: rest

/-- The path up to the end of its last component. -/
def trimmed (slash dot : α) (p : List α) : List α := (trimReversed slash dot p.reverse).reverse

/-- The last component. -/
def last (slash dot : α) (p : List α) : List α :=
  ((trimmed slash dot p).reverse.takeWhile (· ≠ slash)).reverse

/-- The path without its last component; none for the root and the empty path. -/
def parent? (slash dot : α) (p : List α) : Option (List α) :=
  let whole := trimmed slash dot p
  if whole = [] ∨ whole = [slash] then none
  else some (trimmed slash dot (whole.reverse.dropWhile (· ≠ slash)).reverse)

end Components

namespace Path

/-- The path without its last component; none for the root and the empty path. -/
def parent? (p : Path) : Option Path := (Components.parent? '/' '.' p.text).map Path.mk

/-- The name of the entry that a path names in its parent. -/
def entryName? (p : Path) : Option Text :=
  match Components.last '/' '.' p.text with
  | [] => none
  | ['.'] => none
  | ['.', '.'] => none
  | name => some name

/-- Does the path begin at the root? -/
def isAbsolute (p : Path) : Bool := p.text.head? = some '/'

/-- Append a path, with a slash between the two where one is missing; an absolute
path stands for itself. -/
def append (p : Path) (q : Text) : Path :=
  if q.head? = some '/' then ⟨q⟩
  else if p.text = [] ∨ p.text.getLast? = some '/' then ⟨p.text ++ q⟩
  else ⟨p.text ++ '/' :: q⟩

/-- The path of another entry in the same parent. -/
def withEntryName (p : Path) (name : Text) : Path :=
  match p.entryName?, p.parent? with
  | some _, some parent => parent.append name
  | _, _ => p.append name

end Path

end CleanDiff
