import CleanDiff.Disk.Node

/-!
# What has changed between two trees

The files of a tree that an earlier tree does not have with the same content, so
that a disk held in memory can be written back.
-/

namespace CleanDiff.Node

/-- Has the tree a file with this content at this place? -/
def hasFile (n : Node) (place : List Bytes) (content : Bytes) : Bool :=
  match n.get? place with
  | some (.file there _) => there = content
  | _ => false

/-- The files of a tree that an earlier one does not have, each with its place. -/
def changedSince (earlier now : Node) : List (List Bytes × Bytes) :=
  (now.descendants []).filterMap fun (trail, node) =>
    match node with
    | .file content _ =>
        if earlier.hasFile trail.reverse content then none else some (trail.reverse, content)
    | _ => none

end CleanDiff.Node
