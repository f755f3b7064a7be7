import CleanDiff.Disk.Basic

/-!
# Canonical paths

The canonical path of a node leads to it from the root, with no link on the way and
without `.` and `..`. It is found name by name, and the path of every name on the
way, as far as it is canonical already, is looked at as a whole: so no part of
it may be longer than a path can be, while the path that was asked for may.
-/

namespace CleanDiff.Disk

/-- Do these components ask for a directory in front of them? -/
def needsDir : List Bytes → Bool
  | [] => false
  | name :: rest =>
      if name = dotDot then true
      else if name = [] ∨ name = dot then rest = [] || needsDir rest
      else false

/-- Can the end of a trail be reached from the root? -/
def isReachable (d : Disk) (trail : Trail) : Bool :=
  match trail with
  | [] => true
  | _ :: above => d.root.isSearchable && above.all fun step => step.2.isSearchable

/-- Resolve components from the end of a trail. -/
def resolveFrom (d : Disk) (links : Nat) (trail : Trail) (path : List Bytes) :
    Except IoReason Trail :=
  match path with
  | [] => .ok trail
  | name :: rest =>
      if name = [] ∨ name = dot then d.resolveFrom links trail rest
      else if name = dotDot then d.resolveFrom links trail.tail rest
      else if maxPath < (written (names trail ++ [name])).length then .error .nameTooLong
      else if !d.isReachable trail then .error .forbidden
      else if !(d.nodeAt trail).isDir then .error .notADirectory
      else if !(d.nodeAt trail).isSearchable then .error .forbidden
      else if maxName < name.length then .error .nameTooLong
      else
        match (d.nodeAt trail).child? name with
        | none => .error .noSuchFile
        | some (.link target) =>
            match links with
            | 0 => .error .tooManyLinks
            | links + 1 =>
                let start := if target.head? = some slash then [] else trail
                d.resolveFrom links start (components target ++ rest)
        | some node =>
            if needsDir rest ∧ !node.isDir then .error .notADirectory
            else d.resolveFrom links ((name, node) :: trail) rest
termination_by (links, path.length)

/-- The trail to the node that a written path names, along its canonical path. -/
def resolve (d : Disk) (path : Bytes) : Except IoReason Trail :=
  if path = [] then .error .noSuchFile
  else if path.contains 0 then .error .zeroByte
  else if path.head? = some slash then d.resolveFrom maxLinks [] (components path)
  else if d.gone ≠ 0 then .error .noSuchFile
  else
    match d.liveTrail with
    | none => .error .noSuchFile
    | some trail => d.resolveFrom maxLinks trail (components path)

/-- The place of the node that a written path names. -/
def canonicalPlace (d : Disk) (path : Bytes) : Except IoReason (List Bytes) :=
  (d.resolve path).map names

/-- The canonical path of what a path names. -/
def canonicalize (d : Disk) (path : Path) : Except FileError Path :=
  match d.canonicalPlace path.toBytes with
  | .ok place => .ok (.ofBytes (written place))
  | .error e => .error (.io path e)

end CleanDiff.Disk
