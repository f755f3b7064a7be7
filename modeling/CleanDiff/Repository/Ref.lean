import CleanDiff.Repository.Basic
import CleanDiff.Repository.PackedRefs

/-!
# References

A reference is a file below the directory of its repository, under its own name. The file
holds the name of an object, or `ref: ` and the name of another reference, which
stands for it. A reference without such a file may be a packed one.

A chain of references is followed to the one at its end, which names an object.
A short name stands for the first of its full names under which there is a
reference; one that is there and cannot be read ends the search.
-/

namespace CleanDiff

/-- What a reference says. -/
inductive RefTarget
  | object (id : ObjectId)
  /-- Another reference stands for it. -/
  | other (name : RefName)
  deriving DecidableEq, Repr

/-- A reference that names an object. -/
structure Ref where
  name : RefName
  id : ObjectId
  deriving DecidableEq, Repr

namespace RefTarget

/-- What the file of a reference says; none if it is spoilt. -/
def ofContent? (content : Bytes) : Option RefTarget :=
  let lead := RefName.ofString "ref: "
  if lead.isPrefixOf content then
    let line := (content.reverse.dropWhile Repository.isSpaceByte).reverse
    if line.length ≤ lead.length then none
    else some (.other ((line.drop lead.length).takeWhile (· ≠ 0)))
  else
    match content.drop PackedRefs.idWidth with
    | [] => (PackedRefs.idAt? content).map .object
    | b :: _ =>
        if b = 0 || Repository.isSpaceByte b then (PackedRefs.idAt? content).map .object
        else none

end RefTarget

namespace Repository

/-- The place of the directory below which a reference lies. -/
def refHome (r : Repository) (ref : RefName) : List Bytes :=
  if ref.isPrivate then r.home else r.common

/-- What the packed references say of one. -/
def packedRef (d : Disk) (r : Repository) (ref : RefName) : Except Absence RefTarget :=
  match d.contentAt (inside r.common (name "packed-refs")) with
  | .error .noSuchFile => .error .missing
  | .error .notADirectory => .error .missing
  | .error _ => .error .broken
  | .ok file =>
      match PackedRefs.find? file ref with
      | none => .error .broken
      | some none => .error .missing
      | some (some id) => .ok (.object id)

/-- What the file of a reference says. -/
def looseRef (d : Disk) (r : Repository) (ref : RefName) : Except Absence RefTarget :=
  match readFile d (inside (refHome r ref) ref) with
  | .error e => .error e
  | .ok content =>
      match RefTarget.ofContent? content with
      | some target => .ok target
      | none => .error .broken

/-- What a reference says. -/
def refTarget (d : Disk) (r : Repository) (ref : RefName) : Except Absence RefTarget :=
  match looseRef d r ref with
  | .error .missing => packedRef d r ref
  | result => result

/-- How many references may stand for one another in a chain. -/
def maxHops : Nat := 5

/-- The reference at the end of the chain that one begins, at most so many further
on. -/
def chainEnd (d : Disk) (r : Repository) : Nat → RefName → Except Absence Ref
  | hops, ref =>
      match refTarget d r ref with
      | .error e => .error e
      | .ok (.object id) => .ok ⟨ref, id⟩
      | .ok (.other next) =>
          match hops with
          | 0 => .error .broken
          | hops + 1 => chainEnd d r hops next

/-- The first of some references that is there, followed to its end. If none is,
the last name says why: there is no such reference, or there cannot be one. -/
def firstRef (d : Disk) (r : Repository) : Absence → List RefName → Except Absence Ref
  | why, [] => .error why
  | _, ref :: rest =>
      if !ref.isValid then firstRef d r .broken rest
      else if RefName.maxLength < ref.length then .error .broken
      else
        match chainEnd d r maxHops ref with
        | .error .missing => firstRef d r .missing rest
        | result => result

/-- The reference that a short name stands for, followed to its end. -/
def refNamed (d : Disk) (r : Repository) (short : RefName) : Except Absence Ref :=
  firstRef d r .missing short.expansions

/-- The names of the references with files of their own, in order. Links to
directories are not gone into, and files that are spoilt or locks are left out. -/
def looseNames (d : Disk) (r : Repository) : List RefName :=
  match d.look true (inside r.common (name "refs")) with
  | .error _ => []
  | .ok node =>
      let named := (node.descendants [name "refs"]).filterMap fun (trail, inner) =>
        if inner.isDir then none else some ([Disk.slash].intercalate trail.reverse)
      let sound := named.filter fun ref =>
        !(name ".lock").isSuffixOf ref && (looseRef d r ref).toOption.isSome
      sound.mergeSort fun a b => !decide (b < a)

/-- The names of all references below `refs`: those with files of their own, and then
the packed ones that have none. None if the packed ones cannot be read. -/
def allNames? (d : Disk) (r : Repository) : Option (List RefName) := do
  let loose := looseNames d r
  match d.contentAt (inside r.common (name "packed-refs")) with
  | .error .noSuchFile => return loose
  | .error .notADirectory => return loose
  | .error _ => none
  | .ok file =>
      let packed := ((← PackedRefs.readAll? file).map Prod.fst).eraseDups.filter fun ref =>
        (name "refs/").isPrefixOf ref && !loose.contains ref
      return loose ++ packed.mergeSort fun a b => !decide (b < a)

end Repository

end CleanDiff
