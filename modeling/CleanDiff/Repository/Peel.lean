import CleanDiff.Repository.Basic

/-!
# From object to object

A tag leads to the object that it names, a commit to its tree and its parents, a
tree to its entries. Where a commit or a tree is asked for, whatever leads to one
will do.
-/

namespace CleanDiff.Repository

/-- Follow tags, `fuel` of them at most, to an object that is none. -/
def untag? (d : Disk) (r : Repository) : Nat → ObjectId → Option (ObjectId × StoredObject)
  | 0, _ => none
  | fuel + 1, id =>
      match object? d r id with
      | some (.tag target) => untag? d r fuel target
      | some o => some (id, o)
      | none => none

/-- How many tags are followed. -/
def maxTags : Nat := 16

/-- The commit that an object is or names: its own name, that of its tree, and those
of its parents. -/
def commit? (d : Disk) (r : Repository) (id : ObjectId) :
    Option (ObjectId × ObjectId × List ObjectId) :=
  match untag? d r maxTags id with
  | some (id, .commit tree parents _) => some (id, tree, parents)
  | _ => none

/-- The tree that an object is or leads to. -/
def tree? (d : Disk) (r : Repository) (id : ObjectId) : Option (ObjectId × List TreeEntry) :=
  match untag? d r maxTags id with
  | some (id, .tree entries) => some (id, entries)
  | some (_, .commit tree _ _) =>
      match object? d r tree with
      | some (.tree entries) => some (tree, entries)
      | _ => none
  | _ => none

/-- Go to the object of a kind; to any but a tag if no kind is named. -/
def peel? (d : Disk) (r : Repository) (kind : Text) (id : ObjectId) : Option ObjectId :=
  match String.ofList kind with
  | "" => (untag? d r maxTags id).map fun o => o.1
  | "commit" => (commit? d r id).map fun c => c.1
  | "tree" => (tree? d r id).map fun t => t.1
  | "blob" =>
      match untag? d r maxTags id with
      | some (id, .blob _) => some id
      | _ => none
  | "tag" =>
      match object? d r id with
      | some (.tag _) => some id
      | _ => none
  | _ => none

/-- Go so many first parents back. -/
def ancestor? (d : Disk) (r : Repository) : Nat → ObjectId → Option ObjectId
  | 0, id => (commit? d r id).map fun c => c.1
  | n + 1, id => do
      let (_, _, parents) ← commit? d r id
      ancestor? d r n (← parents.head?)

/-- Go to a parent, counted from one; zero is the commit itself. -/
def parent? (d : Disk) (r : Repository) : Nat → ObjectId → Option ObjectId
  | 0, id => (commit? d r id).map fun c => c.1
  | n + 1, id => do
      let (_, _, parents) ← commit? d r id
      parents[n]?

/-- What looking a path up in a tree gives. -/
inductive Found
  | entry (e : TreeEntry)
  | missing
  /-- A directory on the way cannot be read. -/
  | damaged

/-- Look a path up in a tree, component by component. -/
def entryAt (d : Disk) (r : Repository) (entries : List TreeEntry) : List Bytes → Found
  | [] => .missing
  | part :: rest =>
      match entries.find? fun e => e.name = part with
      | none => .missing
      | some e =>
          if rest = [] then .entry e
          else if e.kind ≠ .tree then .missing
          else if rest = [[]] then .entry e
          else
            match object? d r e.id with
            | some (.tree inner) => entryAt d r inner rest
            | _ => .damaged

end CleanDiff.Repository
