import CleanDiff.Proofs.TemporaryFile
import Mathlib.Computability.Primrec.List
import Mathlib.Computability.TuringMachine.StackTuringMachine
import Mathlib.Data.List.Permutation

/-!
# All or nothing

**A file is written as a whole or not at all**, whichever of the steps fail
(`writeFileUnder_all_or_nothing`). What the steps are known to do is a contract over the
stages that a store goes through (`AtomicWrite.Stages`): before the temporary file is opened,
while it is open, when it is written, and when it has replaced its target. The contract gives
the outcome of the sequence (`AtomicWrite.run_outcome`), for a disk as for any other store,
and a disk keeps it with any of the steps failing (`stages_atomicWriteUnder`).

What is kept is said of places. Where the path led somewhere, it leads to the same place once
its directories are made; where it led nowhere, these directories can lead it to a file that
was there before, and a path that goes through the very link that the file replaces is lost
(`not_all_or_nothing`).

Writing on the small disks at the end is evaluated by `cbv`, which takes the equations of
`List.lookup`, `List.tail` and `Prod.snd` from the library modules imported here.
-/

namespace CleanDiff

namespace AtomicWrite

variable {σ : Type} {w : AtomicWrite σ} {content : Bytes} {before s : σ}
  {Opened : Bytes → σ → Prop} {Written Replaced : σ → Prop}

/-- What the steps do, told by the stages of the store: `Opened` with the bytes that the
temporary file holds, `Written` when it is ready to be renamed, `Replaced` after that. A step
that fails leaves the store in the stage in which it was, and removing the temporary file
leads back to the store as it was before. -/
structure Stages (w : AtomicWrite σ) (content : Bytes) (before : σ) (Opened : Bytes → σ → Prop)
    (Written Replaced : σ → Prop) : Prop where
  opens : ∀ after, w.openTemporary before = (after, .ok ()) → Opened [] after
  opens_not : ∀ after e, w.openTemporary before = (after, .error e) → after = before
  lock : ∀ s part, Opened part s → Opened part (w.lock s).1
  writes : ∀ s part after, Opened part s → w.write s = (after, .ok ()) → Opened content after
  /-- A write that fails can leave a part. -/
  writes_not : ∀ s part after e, Opened part s → w.write s = (after, .error e) →
    ∃ part', Opened part' after
  sync : ∀ s part, Opened part s → Opened part (w.sync s).1
  unlock : ∀ s part, Opened part s → Opened part (w.unlock s).1
  copyMode : ∀ s, Opened content s → Written (w.copyMode s)
  renames : ∀ s after, Written s → w.rename s = (after, .ok ()) → Replaced after
  renames_not : ∀ s after e, Written s → w.rename s = (after, .error e) → Written after
  removes_opened : ∀ s part, Opened part s → w.removeTemporary s = before
  removes_written : ∀ s, Written s → w.removeTemporary s = before

/-- Locking or unlocking can fail. -/
def LockFails (w : AtomicWrite σ) : Prop :=
  (∃ s e, (w.lock s).2 = .error e) ∨ ∃ s e, (w.unlock s).2 = .error e

/-! ### The sequence, step by step -/

theorem thenDo_eq {result : σ × Except FileError Unit} {next : σ → σ × Except FileError Unit}
    {after : σ} {answer : Except FileError Unit} (h : thenDo result next = (after, answer)) :
    (∃ e, result = (after, .error e) ∧ answer = .error e) ∨
      ∃ s, result = (s, .ok ()) ∧ next s = (after, answer) := by
  obtain ⟨s, e | ⟨⟩⟩ := result
  · obtain ⟨rfl, rfl⟩ := Prod.mk.inj h
    exact .inl ⟨e, rfl, rfl⟩
  · exact .inr ⟨s, rfl, h⟩

theorem orRemove_eq {result : σ × Except FileError Unit} {after : σ}
    {answer : Except FileError Unit} (h : w.orRemove result = (after, answer)) :
    (∃ s e, result = (s, .error e) ∧ after = w.removeTemporary s ∧ answer = .error e) ∨
      result = (after, .ok ()) ∧ answer = .ok () := by
  obtain ⟨s, e | ⟨⟩⟩ := result
  · obtain ⟨rfl, rfl⟩ := Prod.mk.inj h
    exact .inl ⟨s, e, rfl, rfl, rfl⟩
  · obtain ⟨rfl, rfl⟩ := Prod.mk.inj h
    exact .inr ⟨rfl, rfl⟩

/-- Writing, with the clean-up behind it, leaves the whole content or nothing. -/
theorem Stages.write_outcome (h : w.Stages content before Opened Written Replaced) {part : Bytes}
    (hs : Opened part s) {after : σ} {answer : Except FileError Unit}
    (hrun : w.orRemove (thenDo (w.write s) w.sync) = (after, answer)) :
    (answer = .ok () ∧ Opened content after) ∨ ∃ e, answer = .error e ∧ after = before := by
  obtain ⟨stopped, e, hstopped, rfl, rfl⟩ | ⟨hdone, rfl⟩ := orRemove_eq hrun
  · refine .inr ⟨e, rfl, ?_⟩
    obtain ⟨e', hwrite, -⟩ | ⟨written, hwrite, hsync⟩ := thenDo_eq hstopped
    · obtain ⟨part', hpart'⟩ := h.writes_not s part stopped e' hs hwrite
      exact h.removes_opened stopped part' hpart'
    · have hsynced := h.sync written content (h.writes s part written hs hwrite)
      rw [hsync] at hsynced
      exact h.removes_opened stopped content hsynced
  · obtain ⟨e, -, herror⟩ | ⟨written, hwrite, hsync⟩ := thenDo_eq hdone
    · exact absurd herror (by simp)
    · have hsynced := h.sync written content (h.writes s part written hs hwrite)
      rw [hsync] at hsynced
      exact .inl ⟨rfl, hsynced⟩

/-- Renaming, with the clean-up behind it, replaces the target or leaves nothing. -/
theorem Stages.rename_outcome (h : w.Stages content before Opened Written Replaced)
    (hs : Written s) {after : σ} {answer : Except FileError Unit}
    (hrun : w.orRemove (w.rename s) = (after, answer)) :
    (answer = .ok () ∧ Replaced after) ∨ ∃ e, answer = .error e ∧ after = before := by
  obtain ⟨stopped, e, hstopped, rfl, rfl⟩ | ⟨hdone, rfl⟩ := orRemove_eq hrun
  · exact .inr ⟨e, rfl, h.removes_written stopped (h.renames_not s stopped e hs hstopped)⟩
  · exact .inl ⟨rfl, h.renames s after hs hdone⟩

/-- **The outcome of the whole sequence.** The target is replaced, or the store is as it was
before the temporary file; only where locking or unlocking fails can this file be left. -/
theorem run_outcome (h : w.Stages content (w.createParents s).1 Opened Written Replaced)
    {after : σ} {answer : Except FileError Unit} (hrun : w.run s = (after, answer)) :
    (answer = .ok () ∧ Replaced after) ∨ ∃ e, answer = .error e ∧
      (after = (w.createParents s).1 ∨ w.LockFails ∧ ∃ part, Opened part after) := by
  obtain ⟨e, hparents, rfl⟩ | ⟨made, hparents, hrun⟩ := thenDo_eq hrun
  · exact .inr ⟨e, rfl, .inl (by rw [hparents])⟩
  rw [hparents] at h ⊢
  obtain ⟨e, hopen, rfl⟩ | ⟨opened, hopen, hrun⟩ := thenDo_eq hrun
  · exact .inr ⟨e, rfl, .inl (h.opens_not after e hopen)⟩
  have hlocked := h.lock opened [] (h.opens opened hopen)
  obtain ⟨e, hlock, rfl⟩ | ⟨locked, hlock, hrun⟩ := thenDo_eq hrun
  · rw [hlock] at hlocked
    exact .inr ⟨e, rfl, .inr ⟨.inl ⟨opened, e, by rw [hlock]⟩, [], hlocked⟩⟩
  rw [hlock] at hlocked
  obtain ⟨e, hwrite, rfl⟩ | ⟨written, hwrite, hrun⟩ := thenDo_eq hrun
  · obtain ⟨hok, -⟩ | ⟨_, -, hafter⟩ := h.write_outcome hlocked hwrite
    · exact absurd hok (by simp)
    · exact .inr ⟨e, rfl, .inl hafter⟩
  obtain ⟨-, hwritten⟩ | ⟨_, herror, -⟩ := h.write_outcome hlocked hwrite
  · have hunlocked := h.unlock written content hwritten
    obtain ⟨e, hunlock, rfl⟩ | ⟨unlocked, hunlock, hrun⟩ := thenDo_eq hrun
    · rw [hunlock] at hunlocked
      exact .inr ⟨e, rfl, .inr ⟨.inr ⟨written, e, by rw [hunlock]⟩, content, hunlocked⟩⟩
    · rw [hunlock] at hunlocked
      obtain hdone | ⟨e, herror, hafter⟩ := h.rename_outcome (h.copyMode unlocked hunlocked) hrun
      · exact .inl hdone
      · exact .inr ⟨e, herror, .inl hafter⟩
  · exact absurd herror (by simp)

/-- A step that fails without effect if there is an error for it. -/
def failing (fault : Option FileError) (step : σ → σ × Except FileError Unit) (s : σ) :
    σ × Except FileError Unit :=
  match fault with
  | some e => (s, .error e)
  | none => step s

theorem failing_nothing {fault : Option FileError} {s : σ} :
    (failing fault (fun s => (s, .ok ())) s).1 = s := by
  cases fault <;> rfl

theorem failing_fst (fault : Option FileError) (step : σ → σ × Except FileError Unit) (s : σ) :
    (failing fault step s).1 = s ∨ (failing fault step s).1 = (step s).1 := by
  cases fault with
  | some e => exact .inl rfl
  | none => exact .inr rfl

theorem failing_eq_ok {fault : Option FileError} {step : σ → σ × Except FileError Unit}
    {s after : σ} (h : failing fault step s = (after, .ok ())) : step s = (after, .ok ()) := by
  cases fault with
  | some e => exact absurd h (by simp [failing])
  | none => exact h

theorem failing_eq_error {fault : Option FileError} {step : σ → σ × Except FileError Unit}
    {s after : σ} {e : FileError} (h : failing fault step s = (after, .error e)) :
    after = s ∨ step s = (after, .error e) := by
  cases fault with
  | some e' => exact .inl (Prod.mk.inj h).1.symm
  | none => exact .inr h

end AtomicWrite

/-- What goes wrong while a file is written: the steps that have an error here fail with it. -/
structure Faults where
  createParents : Option FileError := none
  openTemporary : Option FileError := none
  lock : Option FileError := none
  /-- Writing ends with an error behind this many bytes. -/
  write : Option (Nat × FileError) := none
  sync : Option FileError := none
  unlock : Option FileError := none
  /-- The permissions of the file that is replaced cannot be copied. -/
  copyMode : Bool := false
  rename : Option FileError := none

namespace Disk

open AtomicWrite

variable {d d' : Disk}

/-- The steps of writing a file on a disk, of which some fail. -/
def atomicWriteUnder (d : Disk) (faults : Faults) (path : Path) (content : Bytes) :
    AtomicWrite Disk :=
  let w := d.atomicWrite path content
  { createParents := failing faults.createParents w.createParents
    openTemporary := failing faults.openTemporary w.openTemporary
    lock := failing faults.lock w.lock
    write := fun s =>
      match faults.write with
      | some (count, e) => (((d.atomicWrite path (content.take count)).write s).1, .error e)
      | none => w.write s
    sync := failing faults.sync w.sync
    unlock := failing faults.unlock w.unlock
    copyMode := if faults.copyMode then id else w.copyMode
    rename := failing faults.rename w.rename
    removeTemporary := w.removeTemporary }

/-- Write a file all at once where some of the steps fail. -/
def writeFileUnder (d : Disk) (faults : Faults) (path : Path) (content : Bytes) :
    Disk × Except FileError Unit := (d.atomicWriteUnder faults path content).run d

theorem writeFileUnder_none (d : Disk) (path : Path) (content : Bytes) :
    d.writeFileUnder {} path content = d.writeFile path content := rfl

/-- The disk with the directories that are made for a file. -/
def withParents (d : Disk) (faults : Faults) (path : Path) : Disk :=
  (failing faults.createParents (d.atomicWrite path []).createParents d).1

theorem prepares_withParents (hd : d.Sound) (faults : Faults) (path : Path) :
    d.Prepares (d.withParents faults path) := by
  obtain hsame | hstep := failing_fst faults.createParents (d.atomicWrite path []).createParents d
  · rw [withParents, hsame]
    exact .refl d
  · have hparents : d.Prepares ((d.atomicWrite path []).createParents d).1 := by
      dsimp only [atomicWrite]
      split
      · exact .refl d
      · next parent hparent =>
        have hmade := prepares_createDirs hd parent.toBytes
        rcases hcreate : d.createDirs parent.toBytes with ⟨made, e | ⟨⟩⟩ <;> rw [hcreate] at hmade
        · exact hmade
        · exact hmade
    rw [withParents, hstep]
    exact hparents

/-! ### The steps on a disk -/

section Steps

variable {path : Bytes} {front : List Bytes} {name content : Bytes} {mode : Nat}

theorem attempt_eq_ok {p : Path} {result : Except IoReason Disk}
    (h : d.attempt p result = (d', .ok ())) : result = .ok d' := by
  cases result with
  | error e => exact absurd h (by simp [attempt])
  | ok after => exact congrArg Except.ok (Prod.mk.inj h).1

theorem attempt_eq_error {p : Path} {result : Except IoReason Disk} {e : FileError}
    (h : d.attempt p result = (d', .error e)) : d' = d := by
  cases result with
  | error e => exact (Prod.mk.inj h).1.symm
  | ok after => exact absurd h (by simp [attempt])

/-- Writing the temporary file leaves a part of the content in it, and all of it where it
succeeds. -/
theorem Spare.writeOpen_eq {p : Path} (h : d.Spare p.toBytes front name) (old content : Bytes) :
    ∃ part, ((d.put (front ++ [name]) (some (.file old 0o644))).writeOpen p content).1 =
        d.put (front ++ [name]) (some (.file part 0o644)) ∧
      (((d.put (front ++ [name]) (some (.file old 0o644))).writeOpen p content).2 = .ok () →
        part = content) := by
  cases hlimit : (d.put (front ++ [name]) (some (.file old 0o644))).sizeLimit with
  | none => exact ⟨content, by simp [writeOpen, hlimit, h.overwrite_eq], fun _ => rfl⟩
  | some limit =>
    refine ⟨content.take limit, ?_, fun hok => ?_⟩
    · simp only [writeOpen, hlimit, h.overwrite_eq]
      split <;> rfl
    · simp only [writeOpen, hlimit] at hok
      split at hok
      · next hlength =>
        rw [List.length_take] at hlength
        exact List.take_of_length_le (by omega)
      · exact absurd hok (by simp)

theorem withoutEndSlashes_eq (h : path.getLast? ≠ some slash) : withoutEndSlashes path = path := by
  have hdrop : path.reverse.dropWhile (· = slash) = path.reverse := by
    cases hreverse : path.reverse with
    | nil => rfl
    | cons b rest =>
      rw [← List.head?_reverse, hreverse] at h
      exact List.dropWhile_cons_of_neg (by simpa using h)
  rw [withoutEndSlashes, hdrop, List.reverse_reverse]
  split
  · rfl
  · rfl

/-- A file that is put somewhere makes no way. -/
theorem keepsWays_of_put {outer node : Node} (houter : d.root.get? front = some outer)
    (hdir : outer.isDir = true) (hnode : node.isFile = true) :
    (d.put (front ++ [name]) (some node)).KeepsWays d where
  current := rfl
  gone := rfl
  ways other inner hinner hway := by
    change (d.root.set (some node) (front ++ [name])).get? other = some inner at hinner
    have hself := Node.get?_set_self houter hdir name node
    obtain ⟨content, mode, rfl⟩ := Node.exists_file_of_isFile hnode
    have hprefix : ¬ front ++ [name] <+: other := by
      intro hprefix
      obtain rfl := Node.eq_of_begins (by simp [hself, Node.isDir]) hprefix hinner
      exact absurd hway (by simp [← Option.some.inj (hself.symm.trans hinner), Node.isFile])
    have hbare := Node.bare_get?_set d.root (.file content mode) hprefix
    rw [hinner] at hbare
    exact Option.map_eq_some_iff.1 hbare.symm

/-- The place that a path leads to can be taken by a file: it has the name at the end of the
path, is no directory, and not the place of the temporary file. -/
structure Target (d : Disk) (p : Path) (dir : List Bytes) (last : Bytes) : Prop where
  leads : d.placeOf? p = some (dir ++ [last])
  ends : ∃ front, components p.toBytes = front ++ [last]
  isEntry : IsEntry last
  ne_temporary : last ≠ d.temporaryEntry p
  not_isDir : ∀ old, d.root.get? (dir ++ [last]) = some old → old.isDir = false

/-- Renaming the temporary file puts it at the place that the path leads to. -/
theorem Spare.rename_eq_ok {p : Path} {temporary : Bytes}
    (h : d.Spare temporary front (d.temporaryEntry p))
    (hrename : (d.put (front ++ [d.temporaryEntry p]) (some (.file content mode))).rename
      temporary p.toBytes = .ok d') :
    ∃ dir last, d.Target p dir last ∧ d' = d.put (dir ++ [last]) (some (.file content mode)) := by
  obtain ⟨outer, houter, hdir, -⟩ := h.outer
  obtain ⟨trail, hfind, hnames, hnode⟩ := h.find_eq content mode false
  have hkeeps := h.keepsWays (.file content mode)
  have hkeeps' : (d.put (front ++ [d.temporaryEntry p]) (some (.file content mode))).KeepsWays d :=
    keepsWays_of_put houter hdir rfl
  have hsound := hkeeps.sound h.sound
  have hremoved := h.put_none content mode
  generalize d.put (front ++ [d.temporaryEntry p]) (some (.file content mode)) = opened at *
  rw [rename, hfind] at hrename
  dsimp only at hrename
  split at hrename
  · exact absurd hrename (by simp)
  next place hlocate =>
  split at hrename
  · exact absurd hrename (by simp)
  next hlast =>
  split at hrename
  · exact absurd hrename (by simp)
  next hslash =>
  rw [withoutEndSlashes_eq hslash] at hlocate hlast
  obtain ⟨path, last, hpath, hname⟩ : ∃ path last, components p.toBytes = path ++ [last] ∧
      IsEntry last := by
    cases hend : (components p.toBytes).getLast? with
    | none => exact absurd (.inl hend) hlast
    | some last =>
      obtain ⟨path, hpath⟩ := List.getLast?_eq_some_iff.1 hend
      simp only [hend, Option.some.injEq, not_or] at hlast
      exact ⟨path, last, hpath, hlast.2.1, hlast.2.2.1, hlast.2.2.2⟩
  obtain ⟨hon, dir, hplace⟩ := locate_name hsound hpath hname hlocate
  -- The file goes to the place, where it replaces no directory.
  obtain ⟨hfile, rfl⟩ : (∀ old, opened.root.get? place.names = some old → old.isDir = false) ∧
      d' = d.put place.names (some (.file content mode)) := by
    rw [hnames, hnode, hremoved] at hrename
    cases place with
    | free parent name =>
      exact ⟨by simp [Place.names, hon.get?_of_free.2], (Except.ok.inj hrename).symm⟩
    | found goal =>
      dsimp only at hrename
      split at hrename
      · exact absurd hrename (by simp)
      · next hfile =>
        refine ⟨fun old hold => ?_, (Except.ok.inj hrename).symm⟩
        obtain rfl := Option.some.inj (hold.symm.trans hon.get?_of_found)
        simpa using hfile
  -- Without the temporary file the path leads to the same place.
  have hleads := placeOf?_kept hkeeps' hsound (fun target hlink => hkeeps.link hlink)
    (placeOf?_eq_some_iff.2 ⟨place, hlocate, hplace⟩)
  rw [hplace] at hfile ⊢
  refine ⟨dir, last, ⟨hleads, ⟨path, hpath⟩, hname,
    temporaryEntry_ne_of_components hpath hname d, fun old hold => ?_⟩, rfl⟩
  by_contra hdirectory
  obtain ⟨old', hold', hisDir⟩ := hkeeps.isDir hold (by simpa using hdirectory)
  exact absurd hisDir (by simp [hfile old' hold'])

/-! ### The stages of a disk -/

/-- The temporary file holds some bytes, and nothing else is different from the disk. -/
def Opened (d : Disk) (p : Path) (part : Bytes) (s : Disk) : Prop :=
  ∃ dir, d.Spare (d.temporaryPath p).toBytes dir (d.temporaryEntry p) ∧
    s = d.put (dir ++ [d.temporaryEntry p]) (some (.file part 0o644))

/-- The temporary file holds the content, with whatever permissions. -/
def Written (d : Disk) (p : Path) (content : Bytes) (s : Disk) : Prop :=
  ∃ dir mode, d.Spare (d.temporaryPath p).toBytes dir (d.temporaryEntry p) ∧
    s = d.put (dir ++ [d.temporaryEntry p]) (some (.file content mode))

/-- The file that a path leads to holds the content. -/
def Replaced (d : Disk) (p : Path) (content : Bytes) (s : Disk) : Prop :=
  ∃ dir last mode, d.Target p dir last ∧ s = d.put (dir ++ [last]) (some (.file content mode))

theorem opened_of_overwrite (hd : d.Sound) {p : Path}
    (hnone : ∀ dir, d.fileAt (dir ++ [d.temporaryEntry p]) = none)
    (h : d.openEmpty (d.temporaryPath p) = .ok d') : d.Opened p [] d' := by
  obtain ⟨front, hpath⟩ := d.components_temporaryPath p
  exact spare_of_overwrite hd hpath (d.isEntry_temporaryEntry p) hnone h

theorem Opened.written {p : Path} (h : d.Opened p content d') : d.Written p content d' := by
  obtain ⟨dir, hspare, rfl⟩ := h
  exact ⟨dir, 0o644, hspare, rfl⟩

theorem Written.remove_eq {p : Path} (h : d.Written p content d') :
    (d'.remove (d.temporaryPath p).toBytes).1 = d := by
  obtain ⟨dir, mode, hspare, rfl⟩ := h
  exact hspare.remove_eq content mode

/-- A disk keeps the contract, whichever of its steps fail. -/
theorem stages_atomicWriteUnder (hd : d.Sound) {p : Path}
    (hnone : ∀ dir, d.fileAt (dir ++ [d.temporaryEntry p]) = none) (faults : Faults)
    (content : Bytes) :
    (d.atomicWriteUnder faults p content).Stages content d (d.Opened p) (d.Written p content)
      (d.Replaced p content) where
  opens after h := opened_of_overwrite hd hnone (attempt_eq_ok (failing_eq_ok h))
  opens_not after e h := by
    obtain hsame | hstep := failing_eq_error h
    · exact hsame
    · exact attempt_eq_error hstep
  lock s part hs := failing_nothing.symm ▸ hs
  writes s part after hs h := by
    obtain ⟨dir, hspare, rfl⟩ := hs
    obtain ⟨part', hafter, hwhole⟩ := hspare.writeOpen_eq part content
    dsimp only [atomicWriteUnder] at h
    split at h
    · exact absurd (Prod.mk.inj h).2 (by simp)
    · change Disk.writeOpen _ (d.temporaryPath p) content = _ at h
      rw [h] at hafter hwhole
      exact ⟨dir, hspare, hwhole rfl ▸ hafter⟩
  writes_not s part after e hs h := by
    obtain ⟨dir, hspare, rfl⟩ := hs
    dsimp only [atomicWriteUnder] at h
    split at h
    · next count e' _ =>
      obtain ⟨part', hafter, -⟩ := hspare.writeOpen_eq part (content.take count)
      exact ⟨part', dir, hspare, (Prod.mk.inj h).1 ▸ hafter⟩
    · obtain ⟨part', hafter, -⟩ := hspare.writeOpen_eq part content
      change Disk.writeOpen _ (d.temporaryPath p) content = _ at h
      rw [h] at hafter
      exact ⟨part', dir, hspare, hafter⟩
  sync s part hs := failing_nothing.symm ▸ hs
  unlock s part hs := failing_nothing.symm ▸ hs
  copyMode s hs := by
    dsimp only [atomicWriteUnder]
    split
    · exact hs.written
    · obtain ⟨dir, hspare, rfl⟩ := hs
      dsimp only [atomicWrite]
      split
      · exact ⟨dir, 0o644, hspare, rfl⟩
      · next node _ =>
        refine ⟨dir, node.mode, hspare, ?_⟩
        have hmode := hspare.setMode_eq content 0o644 node.mode
        rw [temporaryPath] at hmode
        rw [hmode]
  renames s after hs h := by
    obtain ⟨dir, mode, hspare, rfl⟩ := hs
    obtain ⟨dir', last, htarget, rfl⟩ := hspare.rename_eq_ok (attempt_eq_ok (failing_eq_ok h))
    exact ⟨dir', last, mode, htarget, rfl⟩
  renames_not s after e hs h := by
    obtain hsame | hstep := failing_eq_error h
    · exact hsame ▸ hs
    · exact attempt_eq_error hstep ▸ hs
  removes_opened s part hs := hs.written.remove_eq
  removes_written s hs := hs.remove_eq

end Steps

/-! ### What the paths lead to afterwards -/

/-- A path leads to a file that is kept. -/
theorem look_kept (hkeeps : d.KeepsWays d') (hd : d.Sound)
    (hfiles : ∀ place node, d.fileAt place = some node → d'.fileAt place = some node)
    {path : Bytes} {node : Node} (hfile : node.isFile = true) (h : d.look true path = .ok node) :
    d'.look true path = .ok node := by
  obtain ⟨content, mode, rfl⟩ := Node.exists_file_of_isFile hfile
  obtain ⟨goal, hlocate, hnode⟩ := look_eq_ok_iff.1 h
  have hempty : d.nodeAt goal ≠ .emptyDir := by simp [hnode, Node.emptyDir]
  obtain hon | ⟨trail, hfound, hlost⟩ := locate_on hd hlocate
  · have hget := hnode ▸ hon.get?_of_found
    have hget' : d'.root.get? (Place.found goal).names = some (.file content mode) :=
      (fileAt_eq_some_iff.1 (hfiles _ _ (fileAt_eq_some_iff.2 ⟨hget, rfl⟩))).1
    obtain ⟨place', hlocate', hnames, hon' | ⟨trail, hfound, hlost⟩⟩ :=
      locate_kept hkeeps hd hlocate (by simp [hget'])
    · rw [← hnames] at hget'
      obtain ⟨goal', rfl, hgoal'⟩ | hfree := hon'.found_or_free
      · exact look_eq_ok_iff.2 ⟨goal', hlocate', Option.some.inj (hgoal'.symm.trans hget')⟩
      · exact absurd (hfree.symm.trans hget') (by simp)
    · exact absurd (Place.found.inj hfound ▸ hlost) hempty
  · exact absurd (Place.found.inj hfound ▸ hlost) hempty

theorem readBytes_kept (hkeeps : d.KeepsWays d') (hd : d.Sound)
    (hfiles : ∀ place node, d.fileAt place = some node → d'.fileAt place = some node) {path : Path}
    {bytes : Bytes} (h : d.readBytes path = .ok bytes) : d'.readBytes path = .ok bytes := by
  unfold readBytes contentAt at h ⊢
  cases hlook : d.look true path.toBytes with
  | error e => exact absurd h (by simp [hlook, Except.mapError])
  | ok node =>
    rw [hlook] at h
    cases node with
    | file content mode => rwa [look_kept hkeeps hd hfiles rfl hlook]
    | dir entries mode =>
      dsimp only at h
      split at h <;> exact absurd h (by simp [Except.mapError])
    | link target =>
      dsimp only at h
      split at h <;> exact absurd h (by simp [Except.mapError])

theorem Target.exists_outer {path : Path} {dir : List Bytes} {last : Bytes} (hd : d.Sound)
    (h : d.Target path dir last) :
    ∃ outer, d.root.get? dir = some outer ∧ outer.isDir = true := by
  obtain ⟨place, hlocate, hnames⟩ := placeOf?_eq_some_iff.1 h.leads
  obtain ⟨front, hpath⟩ := h.ends
  obtain ⟨hon, -⟩ := locate_name hd hpath h.isEntry hlocate
  exact hon.exists_outer hnames

/-- The path leads to the place also when a file is there: whatever link is at the place, the
path does not go through it. -/
def LeadsPast (d : Disk) (path : Path) (place : List Bytes) : Prop :=
  (d.put place (some (.file [] 0o644))).placeOf? path = some place

/-- A path that leads to anything but a link goes through no link there. -/
theorem Target.leadsPast {path : Path} {dir : List Bytes} {last : Bytes} (hd : d.Sound)
    (h : d.Target path dir last)
    (hlink : ∀ target, d.fileAt (dir ++ [last]) ≠ some (.link target)) :
    d.LeadsPast path (dir ++ [last]) := by
  have hkeeps : d.KeepsWays (d.put (dir ++ [last]) (some (.file [] 0o644))) := by
    refine keepsWays_put (fun old hold => ?_) _
    cases old with
    | file content mode => rfl
    | dir entries mode => exact absurd (h.not_isDir _ hold) (by simp [Node.isDir])
    | link target => exact absurd (fileAt_eq_some_iff.2 ⟨hold, rfl⟩) (hlink target)
  obtain ⟨outer, houter, hdir⟩ := h.exists_outer hd
  refine placeOf?_kept hkeeps hd (fun target htarget => ?_) h.leads
  exact absurd ((Node.get?_set_self houter hdir last _).symm.trans htarget) (by simp)

/-- A file put where a path leads is what the path names, unless the path went through a link
that the file has replaced. -/
theorem Target.look_eq {path : Path} {dir : List Bytes} {last : Bytes} (hd : d.Sound)
    (h : d.Target path dir last) (hpast : d.LeadsPast path (dir ++ [last])) (content : Bytes)
    (mode : Nat) :
    (d.put (dir ++ [last]) (some (.file content mode))).look true path.toBytes =
      .ok (.file content mode) := by
  obtain ⟨outer, houter, hdir⟩ := h.exists_outer hd
  obtain ⟨front, hpath⟩ := h.ends
  have hget : ∀ node : Node, (d.put (dir ++ [last]) (some node)).root.get? (dir ++ [last]) =
      some node := Node.get?_set_self houter hdir last
  have hsound := sound_put hd h.not_isDir (.file [] 0o644)
  -- From a file at the place to one with the content, no way changes.
  have hkeeps : (d.put (dir ++ [last]) (some (.file [] 0o644))).KeepsWays
      (d.put (dir ++ [last]) (some (.file content mode))) := by
    rw [← put_put d (dir ++ [last]) (.file [] 0o644) (.file content mode)]
    refine keepsWays_put (fun old hold => ?_) _
    exact Option.some.inj ((hget _).symm.trans hold) ▸ rfl
  refine look_of_placeOf? (hkeeps.sound hsound) hpath h.isEntry ?_ rfl (hget _)
  exact placeOf?_kept hkeeps hsound (fun target htarget =>
    absurd ((hget _).symm.trans htarget) (by simp)) hpast

/-! ### All or nothing -/

/-- The file at a place holds the content, and nothing else has changed. -/
structure WrittenAt (d : Disk) (faults : Faults) (path : Path) (content : Bytes) (d' : Disk)
    (place : List Bytes) (mode : Nat) : Prop where
  /-- The place is the one that the path leads to once its directories are made, -/
  leads : (d.withParents faults path).placeOf? path = some place
  /-- and the one that it led to before, if it led anywhere. -/
  led : ∀ before, d.placeOf? path = some before → before = place
  fileAt : ∀ other, d'.fileAt other =
    if other = place then some (.file content mode) else d.fileAt other
  noTemporary : ∀ dir, d'.fileAt (dir ++ [d.temporaryEntry path]) = none
  /-- The path names the file, unless it went through a link that the file has replaced. -/
  look : (∀ target, d.fileAt place ≠ some (.link target)) ∨
      (d.withParents faults path).LeadsPast path place →
    d'.look true path.toBytes = .ok (.file content mode)

/-- Every file is as it was. -/
structure Unwritten (d : Disk) (faults : Faults) (path : Path) (d' : Disk) : Prop where
  /-- Directories that were made for the file are all that is new. -/
  eq : faults.lock = none → faults.unlock = none → d' = d.withParents faults path
  fileAt : ∀ place, (faults.lock = none ∧ faults.unlock = none ∨
      ∀ dir, place ≠ dir ++ [d.temporaryEntry path]) → d'.fileAt place = d.fileAt place
  noTemporary : faults.lock = none → faults.unlock = none →
    ∀ dir, d'.fileAt (dir ++ [d.temporaryEntry path]) = none
  /-- The path leads where it led before, if it led anywhere, -/
  led : ∀ place, d.placeOf? path = some place → d'.placeOf? path = some place
  /-- and still reads what it read. -/
  readBytes : ∀ bytes, d.readBytes path = .ok bytes → d'.readBytes path = .ok bytes

theorem Prepares.temporaryEntry (h : d.Prepares d') (path : Path) :
    d'.temporaryEntry path = d.temporaryEntry path := by
  rw [h.rest]
  rfl

theorem Prepares.atomicWriteUnder (h : d.Prepares d') (faults : Faults) (path : Path)
    (content : Bytes) :
    d'.atomicWriteUnder faults path content = d.atomicWriteUnder faults path content := by
  rw [h.rest]
  rfl

theorem LockFails.exists_fault {faults : Faults} {path : Path} {content : Bytes}
    (h : (d.atomicWriteUnder faults path content).LockFails) :
    ¬ (faults.lock = none ∧ faults.unlock = none) := by
  rintro ⟨hlock, hunlock⟩
  obtain ⟨s, e, he⟩ | ⟨s, e, he⟩ := h
  · exact absurd he (by simp [Disk.atomicWriteUnder, hlock, failing, atomicWrite])
  · exact absurd he (by simp [Disk.atomicWriteUnder, hunlock, failing, atomicWrite])

/-- No new link is at a place whose file or link is as before. -/
theorem placeOf?_of_fileAt (hkeeps : d.KeepsWays d') (hd : d.Sound) {path : Path}
    {place : List Bytes} (h : d.placeOf? path = some place)
    (hlink : ∀ target, d'.fileAt place = some (.link target) →
      d.fileAt place = some (.link target)) : d'.placeOf? path = some place :=
  placeOf?_kept hkeeps hd (fun target htarget =>
    (fileAt_eq_some_iff.1 (hlink target (fileAt_eq_some_iff.2 ⟨htarget, rfl⟩))).1) h

theorem writtenAt_of_replaced (hd : d.Sound) {path : Path} {faults : Faults} {content : Bytes}
    (hnone : ∀ dir, d.fileAt (dir ++ [d.temporaryEntry path]) = none)
    (h : (d.withParents faults path).Replaced path content d') :
    ∃ place mode, d.WrittenAt faults path content d' place mode := by
  have hmade := prepares_withParents hd faults path
  have hsound := hmade.keepsWays.sound hd
  obtain ⟨dir, last, mode, htarget, rfl⟩ := h
  obtain ⟨outer, houter, hdir⟩ := htarget.exists_outer hsound
  have hfile : ∀ other, ((d.withParents faults path).put (dir ++ [last])
      (some (.file content mode))).fileAt other =
      if other = dir ++ [last] then some (.file content mode) else d.fileAt other := by
    intro other
    rw [fileAt_put houter hdir htarget.not_isDir rfl, hmade.fileAt]
  refine ⟨dir ++ [last], mode, htarget.leads, fun before hbefore => ?_, hfile, fun dir' => ?_,
    fun hpast => htarget.look_eq hsound (hpast.elim (fun hlink => ?_) id) content mode⟩
  · have hsame := placeOf?_of_fileAt hmade.keepsWays hd hbefore fun target hlink => by
      rwa [← hmade.fileAt]
    exact Option.some.inj (hsame.symm.trans htarget.leads)
  · have hne : dir' ++ [d.temporaryEntry path] ≠ dir ++ [last] := by
      intro hsame
      have hlast := (List.cons.inj (List.append_inj_right' hsame rfl)).1
      exact htarget.ne_temporary (hlast.symm.trans (hmade.temporaryEntry path).symm)
    rw [hfile, if_neg hne, hnone]
  · refine htarget.leadsPast hsound fun target => ?_
    rw [hmade.fileAt]
    exact hlink target

theorem unwritten_of_error (hd : d.Sound) {path : Path} {faults : Faults}
    (hnone : ∀ dir, d.fileAt (dir ++ [d.temporaryEntry path]) = none)
    (h : d' = d.withParents faults path ∨ ¬ (faults.lock = none ∧ faults.unlock = none) ∧
      ∃ part, (d.withParents faults path).Opened path part d') :
    d.Unwritten faults path d' := by
  have hmade := prepares_withParents hd faults path
  obtain rfl | ⟨hlock, part, dir, hspare, rfl⟩ := h
  · have hfiles : ∀ place node, d.fileAt place = some node →
        (d.withParents faults path).fileAt place = some node := by
      intro place node hnode
      rw [hmade.fileAt, hnode]
    exact ⟨fun _ _ => rfl, fun place _ => hmade.fileAt place,
      fun _ _ dir => (hmade.fileAt _).trans (hnone dir),
      fun place hplace => placeOf?_of_fileAt hmade.keepsWays hd hplace fun target hlink => by
        rwa [← hmade.fileAt],
      fun bytes => readBytes_kept hmade.keepsWays hd hfiles⟩
  · obtain ⟨outer, houter, hdir, -⟩ := hspare.outer
    rw [hmade.temporaryEntry] at hspare ⊢
    have hfree : ∀ old, (d.withParents faults path).root.get? (dir ++ [d.temporaryEntry path]) =
        some old → old.isDir = false := by simp [hspare.free]
    have hfile := fileAt_put houter hdir hfree (rfl : (Node.file part 0o644).isDir = false)
    have hother : ∀ place, place ≠ dir ++ [d.temporaryEntry path] →
        ((d.withParents faults path).put (dir ++ [d.temporaryEntry path])
          (some (.file part 0o644))).fileAt place = d.fileAt place := by
      intro place hplace
      rw [hfile, if_neg hplace, hmade.fileAt]
    have hkeeps := hmade.keepsWays.trans (hspare.keepsWays (.file part 0o644))
    refine ⟨fun h h' => absurd ⟨h, h'⟩ hlock, fun place hplace => ?_,
      fun h h' => absurd ⟨h, h'⟩ hlock, fun place hplace => ?_, fun bytes => ?_⟩
    · exact hother place ((hplace.resolve_left hlock) dir)
    · refine placeOf?_of_fileAt hkeeps hd hplace fun target hlink => ?_
      rw [hfile, hmade.fileAt] at hlink
      split at hlink
      · exact absurd hlink (by simp)
      · exact hlink
    · refine readBytes_kept hkeeps hd fun place node hnode => ?_
      have hplace : place ≠ dir ++ [d.temporaryEntry path] := by
        rintro rfl
        exact absurd (hnode.symm.trans (hnone dir)) (by simp)
      rw [hother place hplace, hnode]

/-- **A file is written as a whole or not at all**, whichever steps fail. Where no file has
the name of the temporary file, an answer without error means that the place to which the
path leads has the content, and an error that every file is as before. No other file has
changed and the temporary file is gone, but for a lock that could not be taken or released. -/
theorem writeFileUnder_all_or_nothing (hd : d.Sound) {path : Path}
    (hnone : ∀ dir, d.fileAt (dir ++ [d.temporaryEntry path]) = none) (faults : Faults)
    (content : Bytes) :
    match d.writeFileUnder faults path content with
    | (d', .ok ()) => ∃ place mode, d.WrittenAt faults path content d' place mode
    | (d', .error _) => d.Unwritten faults path d' := by
  have hmade := prepares_withParents hd faults path
  have hnone' : ∀ dir, (d.withParents faults path).fileAt
      (dir ++ [(d.withParents faults path).temporaryEntry path]) = none := by
    intro dir
    rw [hmade.fileAt, hmade.temporaryEntry, hnone]
  have hstages := stages_atomicWriteUnder (hmade.keepsWays.sound hd) hnone' faults content
  rw [hmade.atomicWriteUnder] at hstages
  rcases hrun : d.writeFileUnder faults path content with ⟨d', answer⟩
  obtain ⟨rfl, hreplaced⟩ | ⟨e, rfl, houtcome⟩ := run_outcome (s := d) hstages hrun
  · exact writtenAt_of_replaced hd hnone hreplaced
  · refine unwritten_of_error hd hnone ?_
    obtain hsame | ⟨hfails, hopened⟩ := houtcome
    · exact .inl hsame
    · exact .inr ⟨LockFails.exists_fault hfails, hopened⟩

theorem fileAt_eq_none_of_names (hlegal : d.root.Legal) {name : Bytes}
    (h : name ∉ (d.root.descendants []).filterMap fun entry => entry.1.head?) (dir : List Bytes) :
    d.fileAt (dir ++ [name]) = none := by
  rw [Option.eq_none_iff_forall_not_mem]
  intro node hnode
  have hmem := (@Node.mem_descendants_iff _ hlegal [] _ _).2
    ⟨dir ++ [name], by simp, rfl, (fileAt_eq_some_iff.1 hnode).1⟩
  exact h (List.mem_filterMap.2 ⟨_, hmem, by simp⟩)

/-- A file with old notes in a directory. -/
def notes : Disk :=
  { root := .dir [(Utf8.encode "a".toList, .dir [(Utf8.encode "b".toList,
      .file (Utf8.encode "old".toList) 0o600)] 0o755)] 0o755 }

theorem sound_notes : notes.Sound := ⟨Nat.le_refl 0, notes.root, rfl, rfl⟩

theorem fileAt_temporary_notes (dir : List Bytes) :
    notes.fileAt (dir ++ [notes.temporaryEntry ⟨"a/b".toList⟩]) = none := by
  refine fileAt_eq_none_of_names (Node.legal_dir ⟨by decide, by decide⟩ ?_) (by decide) dir
  simp only [List.forall_mem_singleton]
  refine Node.legal_dir ⟨by decide, by decide⟩ ?_
  simpa using Node.legal_of_not_isDir rfl

/-- The notes are written when all steps work, and stay when writing ends behind a byte. -/
theorem writeFileUnder_all_or_nothing_of_notes :
    notes.Sound ∧
    (∀ dir, notes.fileAt (dir ++ [notes.temporaryEntry ⟨"a/b".toList⟩]) = none) ∧
    (∃ place mode, notes.WrittenAt {} ⟨"a/b".toList⟩ (Utf8.encode "new".toList)
      (notes.writeFileUnder {} ⟨"a/b".toList⟩ (Utf8.encode "new".toList)).1 place mode) ∧
    notes.Unwritten { write := some (1, .io ⟨[]⟩ .fileTooLarge) } ⟨"a/b".toList⟩
      (notes.writeFileUnder { write := some (1, .io ⟨[]⟩ .fileTooLarge) } ⟨"a/b".toList⟩
        (Utf8.encode "new".toList)).1 := by
  have hwritten := writeFileUnder_all_or_nothing sound_notes fileAt_temporary_notes {}
    (Utf8.encode "new".toList)
  have hunwritten := writeFileUnder_all_or_nothing sound_notes fileAt_temporary_notes
    { write := some (1, .io ⟨[]⟩ .fileTooLarge) } (Utf8.encode "new".toList)
  obtain ⟨written, hok⟩ : ∃ written, notes.writeFileUnder {} ⟨"a/b".toList⟩
      (Utf8.encode "new".toList) = (written, .ok ()) := ⟨_, Prod.ext rfl (by cbv)⟩
  obtain ⟨kept, herror⟩ : ∃ kept, notes.writeFileUnder
      { write := some (1, .io ⟨[]⟩ .fileTooLarge) } ⟨"a/b".toList⟩ (Utf8.encode "new".toList) =
        (kept, .error (.io ⟨[]⟩ .fileTooLarge)) := ⟨_, Prod.ext rfl (by cbv)⟩
  rw [hok] at hwritten ⊢
  rw [herror] at hunwritten ⊢
  exact ⟨sound_notes, fileAt_temporary_notes, hwritten, hunwritten⟩

/-! ### What does not hold -/

/-- A file that a path reaches through a directory that is not there yet, on a disk that takes
small files only. -/
def roundabout : Disk :=
  { root := .dir [(Utf8.encode "b".toList, .file (Utf8.encode "old".toList) 0o644)] 0o755
    sizeLimit := some 2 }

/-- A link to a directory. -/
def detour : Disk :=
  { root := .dir [(Utf8.encode "e".toList, .dir [] 0o755),
      (Utf8.encode "l".toList, .link (Utf8.encode "e".toList))] 0o755 }

theorem fileAt_temporary_roundabout (dir : List Bytes) :
    roundabout.fileAt (dir ++ [roundabout.temporaryEntry ⟨"a/../b".toList⟩]) = none := by
  refine fileAt_eq_none_of_names (Node.legal_dir ⟨by decide, by decide⟩ ?_) (by decide) dir
  simpa using Node.legal_of_not_isDir rfl

theorem fileAt_temporary_detour (dir : List Bytes) :
    detour.fileAt (dir ++ [detour.temporaryEntry ⟨"l/../l".toList⟩]) = none := by
  refine fileAt_eq_none_of_names (Node.legal_dir ⟨by decide, by decide⟩ ?_) (by decide) dir
  have hdir : (Node.dir [] 0o755).Legal := Node.legal_dir ⟨by decide, by decide⟩ (by simp)
  simpa using ⟨hdir, Node.legal_of_not_isDir rfl⟩

/-- A path need not read the content afterwards when it was written, nor what it read before
when it was not; and a lock that cannot be taken leaves the temporary file. -/
theorem not_all_or_nothing :
    ¬ (∀ (d : Disk) (faults : Faults) (path : Path) (content : Bytes), d.Sound →
      (∀ dir, d.fileAt (dir ++ [d.temporaryEntry path]) = none) →
      (d.writeFileUnder faults path content).2 = .ok () →
      (d.writeFileUnder faults path content).1.readBytes path = .ok content) ∧
    ¬ (∀ (d : Disk) (faults : Faults) (path : Path) (content : Bytes) (e : FileError), d.Sound →
      (∀ dir, d.fileAt (dir ++ [d.temporaryEntry path]) = none) →
      (d.writeFileUnder faults path content).2 = .error e →
      (d.writeFileUnder faults path content).1.readBytes path = d.readBytes path) ∧
    ¬ (∀ (d : Disk) (faults : Faults) (path : Path) (content : Bytes), d.Sound →
      (∀ dir, d.fileAt (dir ++ [d.temporaryEntry path]) = none) →
      ∀ dir, (d.writeFileUnder faults path content).1.fileAt
        (dir ++ [d.temporaryEntry path]) = none) := by
  refine ⟨fun h => ?_, fun h => ?_, fun h => ?_⟩
  · have hread := h detour {} ⟨"l/../l".toList⟩ (Utf8.encode "new".toList)
      ⟨Nat.le_refl 0, detour.root, rfl, rfl⟩ fileAt_temporary_detour (by cbv)
    have hlost : (detour.writeFileUnder {} ⟨"l/../l".toList⟩ (Utf8.encode "new".toList)).1.readBytes
        ⟨"l/../l".toList⟩ = .error (.io ⟨"l/../l".toList⟩ .notADirectory) := by cbv
    exact absurd (hread.symm.trans hlost) (by simp)
  · have hread := h roundabout {} ⟨"a/../b".toList⟩ (Utf8.encode "new".toList)
      (.io ⟨"a/../.b.1.unnoise.tmp".toList⟩ .fileTooLarge)
      ⟨Nat.le_refl 0, roundabout.root, rfl, rfl⟩ fileAt_temporary_roundabout (by cbv)
    have hbefore : roundabout.readBytes ⟨"a/../b".toList⟩ =
        .error (.io ⟨"a/../b".toList⟩ .noSuchFile) := by cbv
    have hafter : (roundabout.writeFileUnder {} ⟨"a/../b".toList⟩
        (Utf8.encode "new".toList)).1.readBytes ⟨"a/../b".toList⟩ =
        .ok (Utf8.encode "old".toList) := by cbv
    exact absurd (hafter.symm.trans (hread.trans hbefore)) (by simp)
  · have hgone := h notes { lock := some (.lockFailed ⟨"a/b".toList⟩) } ⟨"a/b".toList⟩
      (Utf8.encode "new".toList) sound_notes fileAt_temporary_notes [Utf8.encode "a".toList]
    have hleft : (notes.writeFileUnder { lock := some (.lockFailed ⟨"a/b".toList⟩) }
        ⟨"a/b".toList⟩ (Utf8.encode "new".toList)).1.fileAt
        ([Utf8.encode "a".toList] ++ [notes.temporaryEntry ⟨"a/b".toList⟩]) =
        some (.file [] 0o644) := by cbv
    exact absurd (hgone.symm.trans hleft) (by simp)

end Disk

end CleanDiff
