import CleanDiff.Disk.Basic

/-!
# Writing a file all at once

A file is never written in place. The content goes to a temporary file in the
same directory, which is then renamed onto the target, so that a reader sees the
old content or the new and never a part. The steps are, in this order: create the
directories that lead to the file, open the temporary file, lock it, write it and
force it out, unlock it, give it the permissions of the file it replaces, rename.
Where writing or renaming fails the temporary file is removed again.

`AtomicWrite.run` is this sequence over any store that has the steps; a disk is
one such store.
-/

namespace CleanDiff

/-- The steps of writing a file all at once. A step gives back the store as it is
afterwards, also when it fails. -/
structure AtomicWrite (σ : Type) where
  createParents : σ → σ × Except FileError Unit
  openTemporary : σ → σ × Except FileError Unit
  lock : σ → σ × Except FileError Unit
  write : σ → σ × Except FileError Unit
  sync : σ → σ × Except FileError Unit
  unlock : σ → σ × Except FileError Unit
  /-- Copy the permissions of the file that is replaced; a failure is ignored. -/
  copyMode : σ → σ
  rename : σ → σ × Except FileError Unit
  /-- Remove the temporary file; a failure is ignored. -/
  removeTemporary : σ → σ

namespace AtomicWrite

variable {σ : Type}

/-- Do a step, and the next one if it succeeds. -/
def thenDo (result : σ × Except FileError Unit) (next : σ → σ × Except FileError Unit) :
    σ × Except FileError Unit :=
  match result with
  | (s, .ok ()) => next s
  | (s, .error e) => (s, .error e)

/-- Remove the temporary file if a step failed. -/
def orRemove (w : AtomicWrite σ) (result : σ × Except FileError Unit) :
    σ × Except FileError Unit :=
  match result with
  | (s, .ok ()) => (s, .ok ())
  | (s, .error e) => (w.removeTemporary s, .error e)

/-- Do all steps. -/
def run (w : AtomicWrite σ) (s : σ) : σ × Except FileError Unit :=
  thenDo (w.createParents s) fun s =>
  thenDo (w.openTemporary s) fun s =>
  thenDo (w.lock s) fun s =>
  thenDo (w.orRemove (thenDo (w.write s) w.sync)) fun s =>
  thenDo (w.unlock s) fun s =>
  w.orRemove (w.rename (w.copyMode s))

end AtomicWrite

namespace Disk

/-- The name of the temporary file for an entry. -/
def temporaryName (d : Disk) (path : Path) : Text :=
  '.' :: ((path.entryName?.getD []) ++
    '.' :: ((toString d.process).toList ++ ".unnoise.tmp".toList))

/-- A step that can fail at a path. -/
def attempt (d : Disk) (path : Path) (result : Except IoReason Disk) :
    Disk × Except FileError Unit :=
  match result with
  | .ok d => (d, .ok ())
  | .error e => (d, .error (.io path e))

/-- Create or empty the file that a path names. -/
def openEmpty (d : Disk) (path : Path) : Except IoReason Disk :=
  d.overwrite path.toBytes []

/-- Write a file that is open, up to the size that a file may have. -/
def writeOpen (d : Disk) (path : Path) (content : Bytes) : Disk × Except FileError Unit :=
  let allowed := match d.sizeLimit with
    | some limit => content.take limit
    | none => content
  let written := match d.overwrite path.toBytes allowed with
    | .ok d => d
    | .error _ => d
  if allowed.length = content.length then (written, .ok ())
  else (written, .error (.io path .fileTooLarge))

/-- Rename a file. A directory is not replaced, a link is. -/
def rename (d : Disk) (source target : Bytes) : Except IoReason Disk :=
  match d.find false source with
  | .error e => .error e
  | .ok from_ =>
      let bare := withoutEndSlashes target
      let last := (components bare).getLast?
      match d.locate false bare with
      | .error e => .error e
      | .ok place =>
          if last = none ∨ last = some [] ∨ last = some dot ∨ last = some dotDot then .error .busy
          else if target.getLast? = some slash then .error .notADirectory
          else
            let move (goal : List Bytes) : Disk :=
              (d.put (names from_) none).put goal (some (d.nodeAt from_))
            match place with
            | .free parent name => .ok (move (names parent ++ [name]))
            | .found trail =>
                if (d.nodeAt trail).isDir then .error .isADirectory else .ok (move (names trail))

/-- The steps of writing a file on a disk. -/
def atomicWrite (d : Disk) (path : Path) (content : Bytes) : AtomicWrite Disk :=
  let temporary := path.withEntryName (d.temporaryName path)
  { createParents := fun d =>
      match path.parent? with
      | none => (d, .ok ())
      | some parent =>
          match d.createDirs parent.toBytes with
          | (d, .ok ()) => (d, .ok ())
          | (d, .error e) => (d, .error (.io parent e))
    openTemporary := fun d => d.attempt temporary (d.openEmpty temporary)
    lock := fun d => (d, .ok ())
    write := fun d => d.writeOpen temporary content
    sync := fun d => (d, .ok ())
    unlock := fun d => (d, .ok ())
    copyMode := fun d =>
      match d.look true path.toBytes with
      | .error _ => d
      | .ok node =>
          match d.setMode temporary.toBytes node.mode with
          | .ok d => d
          | .error _ => d
    rename := fun d => d.attempt path (d.rename temporary.toBytes path.toBytes)
    removeTemporary := fun d => (d.remove temporary.toBytes).1 }

/-- Write a file all at once. -/
def writeFile (d : Disk) (path : Path) (content : Bytes) : Disk × Except FileError Unit :=
  (d.atomicWrite path content).run d

end Disk

end CleanDiff
