import CleanDiff.Disk.Change
import CleanDiff.Run

/-!
# The program

Everything is decided by `runCommand`, which works on a disk held in memory. Here
the part of the file system that a run can look at is read into such a disk: the
arguments with all that is below them, and the repositories around the current
directory. Files that the run leaves with another content are then written back,
in place, so that they keep their permissions.
-/

namespace CleanDiff.Program

/-- The names of a written path. -/
def namesOf (path : String) : List String :=
  (path.splitOn "/").filter fun name => name ≠ "" && name ≠ "."

/-- The path of a place. -/
def pathOf (place : List String) : String := "/" ++ "/".intercalate place

/-- A place as the disk knows it. -/
def placeOf (place : List String) : List Bytes := place.map Repository.name

/-- The directories in which a repository keeps its own files are not read along
with what is around them. -/
def isOwnDir (name : String) : Bool := name = ".git"

/-- Read a node with everything below it. A link names what it leads to. -/
partial def read (entry : IO.FS.DirEntry) : IO (Option Node) := do
  try
    match (← entry.path.symlinkMetadata).type with
    | .dir =>
        let mut entries := #[]
        for inner in ← entry.path.readDir do
          unless isOwnDir inner.fileName do
            if let some node ← read inner then
              entries := entries.push (Repository.name inner.fileName, node)
        return some (.dir entries.toList 0o755)
    | .file => return some (.file (← IO.FS.readBinFile entry.path).toList 0o644)
    | .symlink =>
        return some (.link (Repository.name (← IO.FS.realPath entry.path).toString))
    | .other => return none
  catch _ => return none

/-- Follow names from a place and put what is on the way on the disk; with
`whole` also everything below the end of the way. -/
partial def follow (whole : Bool) (d : Disk) (place : List String) : List String → IO Disk
  | [] => do
      match place.getLast? with
      | some name =>
          if whole then
            match ← read ⟨pathOf place.dropLast, name⟩ with
            | some node => return d.put (placeOf place) (some node)
            | none => return d
          else return d
      | none => return d
  | ".." :: rest => follow whole d place.dropLast rest
  | name :: rest => do
      let entry : IO.FS.DirEntry := ⟨pathOf place, name⟩
      let there := placeOf (place ++ [name])
      try
        match (← entry.path.symlinkMetadata).type with
        | .dir =>
            let d := if (d.root.get? there).isSome then d else d.put there (some .emptyDir)
            follow whole d (place ++ [name]) rest
        | .symlink =>
            let target := (← IO.FS.realPath entry.path).toString
            let d := d.put there (some (.link (Repository.name target)))
            if (← entry.path.pathExists) then follow whole d [] (namesOf target ++ rest)
            else return d
        | _ =>
            match ← read entry with
            | some node => return d.put there (some node)
            | none => return d
      catch _ => return d

/-- Follow a path that is relative to a place, or absolute. -/
def followPath (whole : Bool) (d : Disk) (place : List String) (path : String) : IO Disk :=
  let start := if path.startsWith "/" then [] else place
  follow whole d [] (start ++ namesOf path)

/-- The files of a repository's own directory that a run looks at. -/
def ownEntries : List String :=
  ["HEAD", "config", "packed-refs", "refs", "objects", "logs", "commondir", "gitdir"]

/-- Read the repositories and settings of a directory and of those above it. -/
def readRepositories (d : Disk) (place : List String) : IO Disk :=
  (List.range (place.length + 1)).foldlM (fun d n => do
    let dir := place.take n
    let d ← follow false d [] (dir ++ [".git"])
    let d ← ownEntries.foldlM (fun d name => follow true d [] (dir ++ [".git", name])) d
    follow true d [] (dir ++ [".unnoise.toml"])) d

/-- The part of the file system that a run can look at. -/
def readDisk (here : List String) (o : Options) : IO Disk := do
  let d ← follow false {} [] here
  let paths := o.paths.map fun p => (Path.ofText p).toString
  let config := o.config.toList.map fun p => (Path.ofText p).toString
  let d ← (paths ++ config).foldlM (fun d p => followPath true d here p) d
  let d ← readRepositories d here
  return { d with current := placeOf here }

/-- Is the output coloured? -/
def wantsColour : IO Bool := do
  let forced := ((← IO.getEnv "CLICOLOR_FORCE").getD "0") ≠ "0"
  let refused := (← IO.getEnv "NO_COLOR").isSome || (← IO.getEnv "CLICOLOR") = some "0"
  return forced || (!refused && (← (← IO.getStdout).isTty))

/-- Write back what has changed. -/
def writeBack (before after : Disk) : IO Unit := do
  for (place, content) in Node.changedSince before.root after.root do
    let names := place.map fun name => String.ofList (Utf8.decodeLossy name)
    IO.FS.writeBinFile (pathOf names) (ByteArray.mk content.toArray)

/-- Run a command line. -/
def run (args : List String) : IO UInt32 := do
  let arguments := args.map String.toList
  let environment := (← IO.getEnv "UNNOISE_REV").map String.toList
  let here := namesOf (← IO.currentDir).toString
  let disk ← match Options.parse arguments environment with
    | .ok o => readDisk here o
    | .error _ => pure {}
  let (after, result) := runCommand disk ⟨← wantsColour⟩ arguments environment
  writeBack disk after
  IO.print (String.ofList result.printed)
  if let some complaint := result.complaint then
    IO.eprintln (String.ofList complaint)
  if result.exitCode = 2 then
    IO.eprintln "error: the arguments are not understood\n\nFor more information, try '--help'."
  return UInt32.ofNat result.exitCode

end CleanDiff.Program

/-- The program. -/
def main (args : List String) : IO UInt32 := CleanDiff.Program.run args
