import CleanDiff.Repository.History
import CleanDiff.Repository.RefLog
import CleanDiff.Repository.Tracking
import CleanDiff.Repository.WrittenDate

/-!
# Revisions

A revision names an object. It begins with a reference, the name of an object or
the beginning of one, or a description that ends in the beginning of one. Behind it
there may be marks in braces with `@` in front, which go back in the log of a
reference by a count or to a date, or to the reference that a branch follows, and
then any number of steps:
`~n` goes `n` first parents back, `^n` to the `n`-th parent, a kind in braces behind
`^` goes to the object of that kind and a pattern there to the latest commit with
such a message, and `:path` goes to an entry of the tree. A revision can also be a
pattern for a message alone, behind `:/`. A text that is no revision, or that leads
nowhere, names nothing.
-/

namespace CleanDiff

/-- A step from one object to another. -/
inductive RevisionStep
  /-- So many first parents back. -/
  | ancestor (n : Nat)
  /-- To a parent, counted from one; zero is the commit itself. -/
  | parent (n : Nat)
  /-- To the object of a kind that this one leads to; to any but a tag if no
  kind is named. -/
  | peel (kind : Text)
  /-- To the latest commit whose message holds a pattern. -/
  | message (pattern : Text)
  /-- To an entry of the tree. -/
  | path (p : Text)
  deriving DecidableEq, Repr

/-- Where a revision begins. -/
inductive RevisionStart
  /-- At what an identifier and the marks behind it name. -/
  | named (identifier : Text) (marks : List Text)
  /-- At the latest of all commits whose message holds a pattern. -/
  | message (pattern : Text)
  deriving DecidableEq, Repr

/-- A revision as it is written. -/
structure Revision where
  start : RevisionStart
  steps : List RevisionStep
  deriving DecidableEq, Repr

namespace RevisionStep

/-- The number at the head of a text, and what follows it. -/
def number? (t : Text) : Option Nat × Text :=
  let digits := t.takeWhile Char.isDigit
  (if digits = [] then none else some (Json.natOfDigits digits), t.dropWhile Char.isDigit)

/-- The step for what stands in braces. -/
def ofBraces : Text → RevisionStep
  | '/' :: pattern => .message pattern
  | kind => .peel kind

/-- Read the steps of a revision, in at most `fuel` steps. -/
def readAll : Nat → Text → Option (List RevisionStep)
  | _, [] => some []
  | 0, _ => none
  | fuel + 1, '~' :: rest =>
      let (n, rest) := number? rest
      (readAll fuel rest).map (.ancestor (n.getD 1) :: ·)
  | fuel + 1, '^' :: '\x7b' :: rest =>
      match rest.dropWhile (· ≠ '\x7d') with
      | [] => none
      | _ :: after => (readAll fuel after).map (ofBraces (rest.takeWhile (· ≠ '\x7d')) :: ·)
  | fuel + 1, '^' :: rest =>
      let (n, rest) := number? rest
      (readAll fuel rest).map (.parent (n.getD 1) :: ·)
  | _ + 1, ':' :: rest => some [.path rest]
  | _ + 1, _ => none

end RevisionStep

namespace Revision

/-- Cut an identifier off the head of a text. -/
def cutIdentifier : Text → Text × Text
  | [] => ([], [])
  | '@' :: '\x7b' :: rest => ([], '@' :: '\x7b' :: rest)
  | c :: rest =>
      if c = '~' || c = '^' || c = ':' then ([], c :: rest)
      else
        let (identifier, after) := cutIdentifier rest
        (c :: identifier, after)

/-- Read the marks at the head of a text, in at most `fuel` steps. -/
def readMarks : Nat → Text → Option (List Text × Text)
  | fuel + 1, '@' :: '\x7b' :: rest =>
      match rest.dropWhile (· ≠ '\x7d') with
      | [] => none
      | _ :: after => do
          let (marks, after) ← readMarks fuel after
          return (rest.takeWhile (· ≠ '\x7d') :: marks, after)
  | _, t => some ([], t)

/-- Read a revision. -/
def parse? (t : Text) : Option Revision :=
  match t with
  | ':' :: '/' :: pattern => some ⟨.message pattern, []⟩
  | _ => do
      let (identifier, rest) := cutIdentifier t
      let (marks, rest) ← readMarks t.length rest
      let steps ← RevisionStep.readAll t.length rest
      if identifier = [] ∧ marks = [] then none else return ⟨.named identifier marks, steps⟩

end Revision

namespace Repository

/-! ### Identifiers -/

/-- Take the second where the first is not there. -/
def ifMissing {α : Type} (first : Except Absence α) (second : Unit → Except Absence α) :
    Except Absence α :=
  match first with
  | .error .missing => second ()
  | found => found

/-- The full names of the stored objects whose names begin with some digits, of
which there are two at least. -/
def namesBeginning (d : Disk) (r : Repository) (digits : Text) : List Text :=
  let dir := inside r.common (name "objects" ++ Disk.slash :: Utf8.encode (digits.take 2))
  match d.look true dir with
  | .ok (.dir entries _) =>
      entries.filterMap fun (entry, _) =>
        let rest := Utf8.decodeLossy entry
        if rest.length = 38 ∧ (digits.drop 2).isPrefixOf rest ∧
            !d.holds true (dir ++ Disk.slash :: entry) Node.isDir then
          some (digits.take 2 ++ rest)
        else none
  | _ => []

/-- The fewest digits that a shortened object name may have. -/
def minDigits : Nat := 4

/-- The object whose name begins with some digits, and which has to be the only
one. -/
def objectBeginning (d : Disk) (r : Repository) (digits : Text) : Except Absence ObjectId :=
  let digits := digits.map Char.toLower
  if digits = [] ∨ 40 < digits.length ∨ digits.any (fun c => (Json.hexValue? c).isNone) then
    .error .missing
  else if digits.length < minDigits then .error .broken
  else
    match if digits.length = 40 then [digits] else namesBeginning d r digits with
    | [] => .error .missing
    | [full] =>
        match ObjectId.ofHex? full with
        | none => .error .broken
        | some id => (readObject d r id).map fun _ => id
    | _ => .error .broken

/-- The form of a description: a name, a count, and the beginning of an object name
behind `-g`. -/
def descriptionForm : Option MessagePattern :=
  MessagePattern.ofBytes? (name ".+-[0-9]+-g[0-9a-fA-F]+")

/-- The object that a description names. -/
def objectDescribed (d : Disk) (r : Repository) (t : Text) : Except Absence ObjectId :=
  match Text.through? "-g".toList t with
  | none => .error .missing
  | some (_, digits) =>
      if descriptionForm.any fun p => p.isFoundIn (MessagePattern.charsOf (Utf8.encode t)) then
        objectBeginning d r digits
      else .error .missing

/-- The object that a reference names, which has to be there. -/
def objectOfRef (d : Disk) (r : Repository) (ref : Ref) : Except Absence ObjectId :=
  if (object? d r ref.id).isSome then .ok ref.id else .error .broken

/-- The object that an identifier names: the one with this full name, what a
reference names, the one whose name begins so, or what a description names. -/
def identified (d : Disk) (r : Repository) (identifier : Text) : Except Absence ObjectId :=
  let size := (Utf8.encode identifier).length
  ifMissing (if size = 40 then objectBeginning d r identifier else .error .missing) fun _ =>
  ifMissing ((refNamed d r (Utf8.encode identifier)).bind (objectOfRef d r)) fun _ =>
  ifMissing (if size < 40 then objectBeginning d r identifier else .error .missing) fun _ =>
  objectDescribed d r identifier

/-! ### Marks -/

/-- What marks lead to: a reference, behind which further marks may stand, or an
object. -/
inductive Marked
  | ref (ref : Ref)
  | object (id : ObjectId)

/-- The whole number that a text is, if it has 32 bits. -/
def markNumber? (t : Text) : Option Int :=
  let body := t.dropWhile fun c => isAsciiBlank c.toNat
  let (sign, digits) := match body with
    | '-' :: rest => ((-1 : Int), rest)
    | '+' :: rest => (1, rest)
    | _ => (1, body)
  let n := sign * Int.ofNat (Json.natOfDigits digits)
  if digits ≠ [] ∧ digits.all Char.isDigit ∧ -2147483648 ≤ n ∧ n ≤ 2147483647 then some n
  else none

/-- What was checked out before a change of `HEAD`, if it was such a change. -/
def leftBy? (c : RefChange) : Option Text := do
  let (_, rest) ← Text.through? "checkout: moving from ".toList (Utf8.decodeLossy c.message)
  let (back, _) ← Text.through? " ot ".toList rest.reverse
  return (rest.reverse.drop back.length).reverse

/-- What was checked out `n` changes ago. -/
def previous? (d : Disk) (r : Repository) (n : Nat) : Option Marked := do
  let left ← ((changes d r RefName.head).filterMap leftBy?)[n - 1]?
  let found := ifMissing ((refNamed d r (Utf8.encode left)).map Marked.ref) fun _ =>
    (objectBeginning d r left).map Marked.object
  found.toOption

/-- A number in a mark is a time if it is larger than this. -/
def maxPosition : Int := 100000000

/-- The mark of the reference that a branch follows, in either length. -/
def followMarks : List Text := [['u'], "up".toList ++ "stream".toList]

/-- Go back in the log of a reference: so many changes, or to a time. -/
def backTo? (d : Disk) (r : Repository) (ref : Ref) (n : Int) : Option Marked := do
  let id ←
    if n = 0 then some ref.id
    else if 0 < n ∧ n ≤ maxPosition then idBefore? d r ref.name n.toNat
    else idAtTime? d r ref.name n
  let _ ← object? d r id
  return .object id

/-- What a mark leads to, from a reference that is known or else from the one that
an identifier names. -/
def marked? (d : Disk) (r : Repository) (identifier : Text) (known : Option Ref) (mark : Text) :
    Option Marked := do
  let ref := match known with
    | some ref => some ref
    | none => (refNamed d r (Utf8.encode identifier)).toOption
  match markNumber? mark with
  | some n =>
      if n < 0 then
        if identifier = [] ∧ known.isNone then previous? d r n.natAbs else none
      else if mark.head? = some '-' then none
      else backTo? d r (← ref) n
  | none =>
      if mark.head? = some '-' then none
      else if followMarks.contains mark then (followed? d r (← ref).name).map .ref
      else backTo? d r (← ref) (← WrittenDate.read? StoredObject.present mark)

/-- What an identifier and the marks behind it lead to. -/
def allMarked? (d : Disk) (r : Repository) (identifier : Text) :
    Option Ref → List Text → Option ObjectId
  | known, [] =>
      match known with
      | some ref => (objectOfRef d r ref).toOption
      | none => (identified d r identifier).toOption
  | known, mark :: rest =>
      match marked? d r identifier known mark with
      | some (.ref ref) => allMarked? d r identifier (some ref) rest
      | some (.object id) => if rest = [] then some id else none
      | none => none

/-! ### Revisions -/

/-- Take a step. -/
def step? (d : Disk) (r : Repository) (id : ObjectId) : RevisionStep → Option ObjectId
  | .ancestor n => ancestor? d r n id
  | .parent n => parent? d r n id
  | .peel kind => peel? d r kind id
  | .message pattern => do
      let (start, _, _) ← commit? d r id
      commitWith? d r [start] (Utf8.encode pattern)
  | .path p => do
      let (tree, entries) ← tree? d r id
      if p = [] then return tree
      else
        match entryAt d r entries ((Utf8.encode p).splitOn Disk.slash) with
        | .entry e => return e.id
        | _ => none

/-- The object at which a revision begins. -/
def start? (d : Disk) (r : Repository) : RevisionStart → Option ObjectId
  | .named identifier marks => allMarked? d r identifier none marks
  | .message pattern => do commitWith? d r (← tips? d r) (Utf8.encode pattern)

/-- The object that a revision names. -/
def resolve? (d : Disk) (r : Repository) (revision : Text) : Option ObjectId := do
  if revision.contains '\x00' then none
  else
    let parsed ← Revision.parse? revision
    parsed.steps.foldlM (step? d r) (← start? d r parsed.start)

/-- The tree of a revision. -/
def treeOf? (d : Disk) (r : Repository) (revision : Text) : Option ObjectId := do
  let (tree, _) ← tree? d r (← resolve? d r revision)
  return tree

end Repository

end CleanDiff
