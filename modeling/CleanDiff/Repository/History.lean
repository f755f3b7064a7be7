import CleanDiff.Repository.MessagePattern
import CleanDiff.Repository.Peel
import CleanDiff.Repository.Ref

/-!
# The history of commits

The history of some commits is made of them and of all commits that they come
from. It is gone through in order of age, commits of one age in the order in which
they are met. It can be searched for a commit whose message holds a pattern; a
history with a commit that cannot be read is not searched at all.
-/

namespace CleanDiff.Repository

/-- The commits that are reached from those waiting, each with its message, in at
most `fuel` steps. Commits that have been met before do not wait again. -/
def reached? (d : Disk) (r : Repository) :
    Nat → List ObjectId → List ObjectId → Option (List (ObjectId × Bytes))
  | _, [], _ => some []
  | 0, _ :: _, _ => none
  | fuel + 1, id :: waiting, met =>
      match object? d r id with
      | some (.commit _ parents message) => do
          let new := parents.eraseDups.filter fun p => !met.contains p
          return (id, message) :: (← reached? d r fuel (waiting ++ new) (met ++ new))
      | _ => none

/-- The history of some commits. It is no longer than there are files. -/
def history? (d : Disk) (r : Repository) (starts : List ObjectId) :
    Option (List (ObjectId × Bytes)) :=
  reached? d r ((d.root.descendants []).length + 1) starts starts

/-- The first commit of a history whose message holds a pattern. -/
def commitWith? (d : Disk) (r : Repository) (starts : List ObjectId) (pattern : Bytes) :
    Option ObjectId := do
  let p ← MessagePattern.ofBytes? pattern
  let all ← history? d r starts
  let (id, _) ← all.find? fun c => p.isFoundIn (MessagePattern.charsOf c.2)
  return id

/-- The commits that the references lead to, those of the last reference first.
References to anything else do not count, and none if one of them cannot be
followed. -/
def tips? (d : Disk) (r : Repository) : Option (List ObjectId) := do
  let tips ← (← allNames? d r).mapM fun ref => do
    let target ← (if ref.isValid then chainEnd d r maxHops ref else .error .broken).toOption
    let _ ← object? d r target.id
    return (commit? d r target.id).map fun c => c.1
  return (tips.reverse.filterMap fun tip => tip).eraseDups

end CleanDiff.Repository
