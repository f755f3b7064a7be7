import CleanDiff.Repository.Object
import CleanDiff.Repository.RefName

/-!
# Packed references

Many references can be packed into one file, a line for each: the name of an
object, a space, and the name of the reference. A line that begins with `^` belongs
to the one above it and says which object the tag there leads to.

The file may begin with a header of its traits. If it says that the lines are
sorted, a reference is looked for by halving, and then a line out of order may not
be found; otherwise the whole file is read, and any line that is not as it should
be spoils it.
-/

namespace CleanDiff.PackedRefs

def newline : UInt8 := 0x0A
def caret : UInt8 := 0x5E
def hash : UInt8 := 0x23

/-- How many digits the name of an object has. -/
def idWidth : Nat := 40

/-- The object name at the head of some bytes. -/
def idAt? (bytes : Bytes) : Option ObjectId :=
  ObjectId.ofHex? (Utf8.decodeLossy (bytes.take idWidth))

/-! ### Reading the whole file -/

/-- Cut off a line; none if it does not end. -/
def line? (bytes : Bytes) : Option (Bytes × Bytes) :=
  let body := bytes.takeWhile fun b => b ≠ newline && b ≠ 0
  match bytes.dropWhile fun b => b ≠ newline && b ≠ 0 with
  | b :: rest => if b = newline then some (body, rest) else none
  | [] => none

/-- Leave out the comment lines at the head of the file. -/
def withoutComments? : Nat → Bytes → Option Bytes
  | 0, bytes => some bytes
  | fuel + 1, bytes =>
      if bytes.head? = some hash then do
        let (_, rest) ← line? bytes
        withoutComments? fuel rest
      else some bytes

/-- Leave out the line that belongs to the one above, if there is one. -/
def withoutPeeled? (bytes : Bytes) : Option Bytes :=
  match bytes with
  | b :: rest =>
      if b = caret then do
        let _ ← idAt? rest
        match rest.drop idWidth with
        | [] => some []
        | more => (line? more).map Prod.snd
      else some bytes
  | [] => some []

/-- A line without the carriage return at its end. -/
def withoutReturn (line : Bytes) : Bytes :=
  if line.getLast? = some 0x0D then line.dropLast else line

/-- Read the lines of references. -/
def readLines? : Nat → Bytes → Option (List (RefName × ObjectId))
  | _, [] => some []
  | 0, _ => none
  | fuel + 1, bytes => do
      let id ← idAt? bytes
      match bytes.drop idWidth with
      | 0x20 :: rest =>
          let (name, rest) ← line? rest
          let rest ← withoutPeeled? rest
          return (withoutReturn name, id) :: (← readLines? fuel rest)
      | _ => none

/-- All references of the file, in its order; none if the file is spoilt. -/
def readAll? (file : Bytes) : Option (List (RefName × ObjectId)) := do
  readLines? file.length (← withoutComments? file.length file)

/-! ### Looking into a sorted file -/

/-- The order of a name relative to another one. -/
def compare : Bytes → Bytes → Ordering
  | [], [] => .eq
  | [], _ :: _ => .lt
  | _ :: _, [] => .gt
  | a :: as, b :: bs => if a < b then .lt else if b < a then .gt else compare as bs

/-- The order of the reference in the line at the head of some bytes relative to a
name. A line that is too short comes before every name. -/
def compareLine (bytes : Bytes) (name : RefName) : Ordering :=
  if bytes.length < idWidth + 3 then .lt
  else compare ((bytes.drop (idWidth + 1)).takeWhile (· ≠ newline)) name

/-- Where the record begins that holds a position, not before `left`: behind the
last line end in front of it that no line beginning with `^` follows. -/
def recordStart (file : Bytes) (left : Nat) : Nat → Nat
  | 0 => left
  | n + 1 =>
      if n < left then left
      else if file[n]? = some newline && !(file[n + 1]? = some caret && left < n) then n + 1
      else recordStart file left n

/-- Where the record ends that holds the first of some bytes, seen from there. -/
def recordEnd : Bytes → Nat
  | [] => 0
  | b :: rest =>
      if b = newline && rest.head? ≠ some caret then 1 else recordEnd rest + 1

/-- Halve the part of the file from `left` to `right` until a record with the name
is met; `fuel` bounds the steps. -/
def bisect (file : Bytes) (name : RefName) : Nat → Nat → Nat → Option Nat
  | 0, _, _ => none
  | fuel + 1, left, right =>
      if right ≤ left then none
      else
        let middle := left + (right - left) / 2
        let start := recordStart file left middle
        match compareLine (file.drop start) name with
        | .eq => some start
        | .lt => bisect file name fuel (middle + recordEnd ((file.take right).drop middle)) right
        | .gt => bisect file name fuel left start

/-- The object that the record at the head of some bytes names; none if the record
is spoilt. -/
def recordId? (bytes : Bytes) : Option ObjectId := do
  let id ← idAt? bytes
  match (bytes.drop (idWidth + 1)).dropWhile (· ≠ newline) with
  | [] => none
  | _ :: rest =>
      if rest.head? = some caret then
        let _ ← idAt? rest.tail
        return id
      else return id

/-! ### The file as a whole -/

/-- The header of a file's traits. -/
def header : Bytes := RefName.ofString "# pack-refs with:"

/-- Does the file say that it is sorted? None if it begins with a comment that is no
whole header. -/
def isSorted? (file : Bytes) : Option Bool :=
  if file.head? ≠ some hash then some false
  else if !header.isPrefixOf file || !file.contains newline then none
  else
    let traits := (file.takeWhile (· ≠ newline)).drop header.length
    some (Text.hasPart " sorted ".toList (Utf8.decodeLossy traits))

/-- The object that the file gives a reference: none at all if the file is spoilt,
none within if it does not hold the reference. -/
def find? (file : Bytes) (name : RefName) : Option (Option ObjectId) := do
  if ← isSorted? file then
    let body ← withoutComments? file.length file
    match bisect body name (body.length + 1) 0 body.length with
    | none => return none
    | some start => return some (← recordId? (body.drop start))
  else
    let all ← readAll? file
    return all.reverse.lookup name

end CleanDiff.PackedRefs
