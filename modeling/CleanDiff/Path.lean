import CleanDiff.Text.Utf8

/-!
# Paths

A path is kept as text with `/` between its components, whatever separators it
was written with, because that is how a repository addresses its files. Nothing
else about it is normalised: `a//b`, `./a` and `a/` stay as they are.
-/

namespace CleanDiff

/-- A path with `/` between its components. -/
structure Path where
  text : Text
  deriving DecidableEq, Repr

namespace Path

/-- Write `/` for every backslash. -/
def forwardSlashes (t : Text) : Text := t.map fun c => if c = '\\' then '/' else c

/-- The path that a text names. -/
def ofText (t : Text) : Path := ⟨forwardSlashes t⟩

/-- The path that a string names. -/
def ofString (s : String) : Path := ofText s.toList

/-- The path that a byte string names, read lossily. -/
def ofBytes (bytes : Bytes) : Path := ofText (Utf8.decodeLossy bytes)

/-- The path as a string. -/
def toString (p : Path) : String := String.ofList p.text

/-- The path as the file system takes it. -/
def toBytes (p : Path) : Bytes := Utf8.encode p.text

/-- Take the slashes off the end of a text. -/
def dropEndSlashes (t : Text) : Text := (t.reverse.dropWhile (· = '/')).reverse

/-- The path of `segment` below this path. -/
def join (p : Path) (segment : Text) : Path :=
  if p.text = [] then ofText segment
  else if p.text.getLast? = some '/' then ⟨p.text ++ forwardSlashes segment⟩
  else ⟨p.text ++ '/' :: forwardSlashes segment⟩

/-- What stands behind the last `c` of a text; the whole text if there is none. -/
def behindLast (c : Char) (t : Text) : Text := (t.reverse.takeWhile (· ≠ c)).reverse

/-- The last component, without slashes behind it. -/
def fileName? (p : Path) : Option Text :=
  let name := behindLast '/' (dropEndSlashes p.text)
  if name = [] then none else some name

/-- The extension of a file name: what stands behind its last dot. A name that
only begins or ends with that dot has none. -/
def extensionOf? (name : Text) : Option Text :=
  let ext := behindLast '.' name
  if ext = [] ∨ name.length ≤ ext.length + 1 then none else some ext

/-- The extension of the last component. -/
def extension? (p : Path) : Option Text := p.fileName?.bind extensionOf?

/-- The path as seen from `base`, component by component; none if it does not
lie below it. -/
def relativeTo? (p base : Path) : Option Path :=
  let root := dropEndSlashes base.text
  match Text.after? root p.text with
  | none => none
  | some rest =>
      if root = [] then some (ofText (rest.dropWhile (· = '/')))
      else
        match rest with
        | [] => some ⟨[]⟩
        | '/' :: inner => some (ofText inner)
        | _ => none

/-- Paths are ordered as their bytes are. -/
def before (p q : Path) : Bool := p.text < q.text

end Path

end CleanDiff
