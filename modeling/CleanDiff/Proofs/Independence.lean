import CleanDiff.Proofs.TreeFrame

/-!
# Files are independent of one another

**What a run answers about a file is what cleaning that file alone, on the tree as it was
at first, answers**, as long as no file is named twice. So the order of the arguments does
not matter, and what goes wrong with one file is never seen at another.

The cleaning of a file reads only what the tree shows about its path (`SameAt`) and
changes only the bytes there. Both are said once, by `cleanFile_eq_effect`: what becomes
of a file is a function, `effect`, of the look at it and of the fault its writing has. That
the steps of a run commute (`cleanFile_comm`) and that each of them finds its file as it
was (`entry_congr`) follow from it.

A run is a fold over its *tasks*, which are known before anything is cleaned, since
directories list the same files however the contents change (`cleanAll_eq_foldl`).
-/

namespace CleanDiff

/-! ### What a tree shows about one path -/

/-- The error of a write that has a fault. -/
def WriteFault.error (path : Path) : WriteFault → FileError
  | .io reason => .io path reason
  | .lock => .lockFailed path

namespace MemoryTree

/-- Two trees show the same about a path: its bytes, whether it is a link, and how reading
and writing it fail. -/
structure SameAt (t u : MemoryTree) (q : Path) : Prop where
  bytes : t.get? q = u.get? q
  link : t.symlinks.contains q = u.symlinks.contains q
  readFault : t.readFaults.lookup q = u.readFaults.lookup q
  writeFault : t.writeFaults.lookup q = u.writeFaults.lookup q

theorem SameAt.refl (t : MemoryTree) (q : Path) : t.SameAt t q := ⟨rfl, rfl, rfl, rfl⟩

theorem SameAt.trans {t u v : MemoryTree} {q : Path} (h : t.SameAt u q) (h' : u.SameAt v q) :
    t.SameAt v q :=
  ⟨h.bytes.trans h'.bytes, h.link.trans h'.link, h.readFault.trans h'.readFault,
    h.writeFault.trans h'.writeFault⟩

theorem SameAt.read_eq {t u : MemoryTree} {q : Path} (h : t.SameAt u q) : t.read q = u.read q := by
  rw [read, read, h.readFault, h.bytes]

/-- Give a file new bytes, if there are any. -/
def overwrite (t : MemoryTree) (path : Path) : Option Bytes → MemoryTree
  | none => t
  | some bytes => t.put path bytes

theorem dirs_overwrite (t : MemoryTree) (path : Path) (bytes : Option Bytes) :
    (t.overwrite path bytes).dirs = t.dirs := by
  cases bytes <;> rfl

theorem sameAt_overwrite (t : MemoryTree) {path q : Path} (bytes : Option Bytes) (hq : q ≠ path) :
    (t.overwrite path bytes).SameAt t q := by
  cases bytes with
  | none => exact .refl t q
  | some bytes => exact ⟨by rw [overwrite, get?_put, if_neg hq], rfl, rfl, rfl⟩

theorem get?_overwrite_self (t : MemoryTree) (path : Path) (bytes : Option Bytes) :
    (t.overwrite path bytes).get? path = bytes.or (t.get? path) := by
  cases bytes with
  | none => rfl
  | some bytes => rw [overwrite, get?_put, if_pos rfl, Option.some_or]

/-- Files that are there keep their places, so it does not matter which of two is given
its bytes first. -/
theorem put_comm {t : MemoryTree} {p q : Path} (hne : p ≠ q) (hp : (t.get? p).isSome = true)
    (hq : (t.get? q).isSome = true) (a b : Bytes) :
    (t.put p a).put q b = (t.put q b).put p a := by
  have hpq : ((t.put p a).get? q).isSome = true := by rw [get?_put, if_neg hne.symm, hq]
  have hqp : ((t.put q b).get? p).isSome = true := by rw [get?_put, if_neg hne, hp]
  have hfiles : ((t.put p a).put q b).files = ((t.put q b).put p a).files := by
    show (if ((t.put p a).get? q).isSome then (t.put p a).files.map _ else _) =
      if ((t.put q b).get? p).isSome then (t.put q b).files.map _ else _
    rw [if_pos hpq, if_pos hqp]
    show (if (t.get? p).isSome then t.files.map _ else _).map _ =
      (if (t.get? q).isSome then t.files.map _ else _).map _
    rw [if_pos hp, if_pos hq, List.map_map, List.map_map]
    apply List.map_congr_left
    rintro ⟨path, bytes⟩ -
    by_cases hpath : path = p
    · subst hpath
      simp [hne]
    · by_cases hpath' : path = q
      · subst hpath'
        simp [hne.symm]
      · simp [hpath, hpath']
  calc (t.put p a).put q b
      = { t with files := ((t.put p a).put q b).files } := rfl
    _ = { t with files := ((t.put q b).put p a).files } := by rw [hfiles]
    _ = (t.put q b).put p a := rfl

end MemoryTree

namespace Cleaner

/-! ### One file, as a function of what is seen of it -/

/-- What becomes of a file, from the look at it and the fault its writing has: the bytes
written, if any, and the answer. -/
def effect (c : Cleaner MemoryTree) (path : Path) :
    Except FileError Examination → Option WriteFault → Option Bytes × Except CleanError FileOutcome
  | .error e, _ => (none, .error (.file e))
  | .ok (.skip reason), _ => (none, .ok (.skipped path reason))
  | .ok (.texts reference working), fault =>
      let result := c.cleaned path reference working
      if result.content = working then (none, .ok (.processed path false result.reversions))
      else if c.dryRun then (none, .ok (.processed path true result.reversions))
      else
        match fault with
        | none => (some (Utf8.encode result.content), .ok (.processed path true result.reversions))
        | some fault => (none, .error (.writeFailure path (fault.error path)))

/-- What becomes of a file of a tree. -/
def effectOn (c : Cleaner MemoryTree) (tree : MemoryTree) (path : Path) :
    Option Bytes × Except CleanError FileOutcome :=
  c.effect path (c.examine tree path) (tree.writeFaults.lookup path)

theorem write_eq (t : MemoryTree) (path : Path) (content : Text) :
    WorkTree.write t path content =
      match t.writeFaults.lookup path with
      | none => (t.put path (Utf8.encode content), .ok ())
      | some fault => (t, .error (fault.error path)) := by
  show t.write path content = _
  rw [MemoryTree.write]
  cases t.writeFaults.lookup path with
  | none => rfl
  | some fault => cases fault <;> rfl

/-- The cleaning of a file writes the bytes of its effect at its path, and answers with it. -/
theorem cleanFile_eq_effect (c : Cleaner MemoryTree) (tree : MemoryTree) (path : Path) :
    c.cleanFile tree path =
      (tree.overwrite path (c.effectOn tree path).1, (c.effectOn tree path).2) := by
  unfold cleanFile effectOn
  cases c.examine tree path with
  | error e => rfl
  | ok seen =>
    cases seen with
    | skip reason => rfl
    | texts reference working =>
      simp only [effect]
      show (if (c.cleaned path reference working).reversions = 0 then _
        else if (c.cleaned path reference working).content = working then _ else _) = _
      by_cases hsame : (c.cleaned path reference working).content = working
      · rw [if_pos hsame, if_pos hsame]
        by_cases hzero : (c.cleaned path reference working).reversions = 0
        · rw [if_pos hzero, hzero]
          rfl
        · rw [if_neg hzero]
          rfl
      · -- Another text means that something was counted.
        have hcounted : (c.cleaned path reference working).reversions ≠ 0 :=
          fun hzero => hsame (content_of_reversions_eq_zero hzero)
        rw [if_neg hcounted, if_neg hsame, if_neg hsame, write_eq]
        cases c.dryRun with
        | true => rfl
        | false => cases tree.writeFaults.lookup path <;> rfl

theorem effectOn_eq (c : Cleaner MemoryTree) (tree : MemoryTree) (path : Path) :
    (c.cleanFile tree path).1 = tree.overwrite path (c.effectOn tree path).1 ∧
      (c.cleanFile tree path).2 = (c.effectOn tree path).2 := by
  rw [cleanFile_eq_effect]
  exact ⟨rfl, rfl⟩

theorem get?_cleanFile_self (c : Cleaner MemoryTree) (tree : MemoryTree) (path : Path) :
    (c.cleanFile tree path).1.get? path = (c.effectOn tree path).1.or (tree.get? path) := by
  rw [(c.effectOn_eq tree path).1, MemoryTree.get?_overwrite_self]

theorem examine_congr {c c' : Cleaner MemoryTree} {t u : MemoryTree} {q : Path}
    (hreference : c.reference t q = c'.reference u q) (h : t.SameAt u q) :
    c.examine t q = c'.examine u q := by
  have hlink : WorkTree.isSymlink t q = WorkTree.isSymlink u q := h.link
  have hfile : WorkTree.isFile t q = WorkTree.isFile u q := congrArg Option.isSome h.bytes
  have hread : WorkTree.read t q = WorkTree.read u q := h.read_eq
  rw [examine, examine, hlink, hfile, hreference, hread]

/-- What becomes of a file hangs on what is seen of its own path alone. -/
theorem effectOn_congr {c c' : Cleaner MemoryTree} {t u : MemoryTree} {q : Path}
    (hregistry : c.registry = c'.registry) (hdry : c.dryRun = c'.dryRun)
    (hreference : c.reference t q = c'.reference u q) (h : t.SameAt u q) :
    c.effectOn t q = c'.effectOn u q := by
  have hcleaned : c.cleaned q = c'.cleaned q := by
    funext reference working
    rw [cleaned, cleaned, profileOf, profileOf, hregistry]
  unfold effectOn effect
  rw [examine_congr hreference h, h.writeFault, hcleaned, hdry]

/-! ### Two files -/

/-- No tree changes the reference versions. -/
def Steady (c : Cleaner MemoryTree) : Prop := ∀ t u, c.reference t = c.reference u

theorem Steady.effectOn_congr {c : Cleaner MemoryTree} (hc : c.Steady) {t u : MemoryTree}
    {q : Path} (h : t.SameAt u q) : c.effectOn t q = c.effectOn u q :=
  Cleaner.effectOn_congr rfl rfl (congrFun (hc t u) q) h

theorem sameAt_cleanFile (c : Cleaner MemoryTree) (tree : MemoryTree) {path q : Path}
    (hq : q ≠ path) : (c.cleanFile tree path).1.SameAt tree q := by
  rw [cleanFile_eq_effect]
  exact tree.sameAt_overwrite _ hq

/-- Only files that are there are written. -/
theorem isSome_of_effectOn {c : Cleaner MemoryTree} {tree : MemoryTree} {path : Path}
    {bytes : Bytes} (h : (c.effectOn tree path).1 = some bytes) :
    (tree.get? path).isSome = true := by
  have hthere := c.isSome_get?_cleanFile tree path path
  rw [get?_cleanFile_self, h] at hthere
  exact hthere.symm

theorem overwrite_comm {c : Cleaner MemoryTree} {tree : MemoryTree} {p q : Path} (hne : p ≠ q) :
    (tree.overwrite p (c.effectOn tree p).1).overwrite q (c.effectOn tree q).1 =
      (tree.overwrite q (c.effectOn tree q).1).overwrite p (c.effectOn tree p).1 := by
  cases hp : (c.effectOn tree p).1 with
  | none => rfl
  | some a =>
      cases hq : (c.effectOn tree q).1 with
      | none => rfl
      | some b =>
          exact MemoryTree.put_comm hne (isSome_of_effectOn hp) (isSome_of_effectOn hq) a b

/-- Two files can be cleaned in either order. -/
theorem cleanFile_comm {c : Cleaner MemoryTree} (hc : c.Steady) (tree : MemoryTree) (p q : Path) :
    (c.cleanFile (c.cleanFile tree p).1 q).1 = (c.cleanFile (c.cleanFile tree q).1 p).1 := by
  by_cases hne : p = q
  · rw [hne]
  · have hq := hc.effectOn_congr (c.sameAt_cleanFile tree (Ne.symm hne))
    have hp := hc.effectOn_congr (c.sameAt_cleanFile tree hne)
    rw [(c.effectOn_eq (c.cleanFile tree p).1 q).1, (c.effectOn_eq (c.cleanFile tree q).1 p).1,
      hq, hp, (c.effectOn_eq tree p).1, (c.effectOn_eq tree q).1]
    exact overwrite_comm hne

end Cleaner

/-! ### The entries of a report -/

/-- What a run records about a file or a directory: an outcome, or a failure. -/
abbrev Entry := Except FileFailure FileOutcome

namespace Entry

/-- The path that an entry is about. -/
def path : Entry → Path
  | .ok outcome => outcome.path
  | .error failure => failure.path

def outcome? : Entry → Option FileOutcome
  | .ok outcome => some outcome
  | .error _ => none

def failure? : Entry → Option FileFailure
  | .ok _ => none
  | .error failure => some failure

end Entry

namespace Report

/-- Put an entry at the end of a report. -/
def add (r : Report) : Entry → Report
  | .ok outcome => { r with files := r.files ++ [outcome] }
  | .error failure => { r with failures := r.failures ++ [failure] }

/-- The report with these entries, in order: outcomes among the files, failures among the
failures. -/
def ofEntries (dryRun : Bool) (entries : List Entry) : Report :=
  ⟨dryRun, entries.filterMap Entry.outcome?, entries.filterMap Entry.failure?⟩

theorem foldl_add (entries : List Entry) (r : Report) :
    entries.foldl add r =
      ⟨r.dryRun, r.files ++ entries.filterMap Entry.outcome?,
        r.failures ++ entries.filterMap Entry.failure?⟩ := by
  induction entries generalizing r with
  | nil => simp
  | cons entry entries ih =>
      rw [List.foldl_cons, ih]
      cases entry <;> simp [add, List.filterMap_cons, Entry.outcome?, Entry.failure?]

/-- A report without what it says about a path. -/
def without (p : Path) (r : Report) : Report :=
  { r with
    files := r.files.filter fun outcome => outcome.path ≠ p
    failures := r.failures.filter fun failure => failure.path ≠ p }

/-- Taking out what is about a path, from the entries or from what is chosen of them. -/
theorem filter_filterMap_path {β : Type} {choose : Entry → Option β} {pathOf : β → Path}
    (h : ∀ entry b, choose entry = some b → pathOf b = entry.path) (p : Path)
    (entries : List Entry) :
    (entries.filterMap choose).filter (fun b => pathOf b ≠ p) =
      (entries.filter fun entry => entry.path ≠ p).filterMap choose := by
  induction entries with
  | nil => rfl
  | cons entry entries ih =>
      cases hchoose : choose entry with
      | none =>
          rw [List.filterMap_cons_none hchoose, ih, List.filter_cons]
          split
          · rw [List.filterMap_cons_none hchoose]
          · rfl
      | some b =>
          rw [List.filterMap_cons_some hchoose, List.filter_cons, List.filter_cons, ih,
            h entry b hchoose]
          split
          · rw [List.filterMap_cons_some hchoose]
          · rfl

theorem without_ofEntries (p : Path) (dryRun : Bool) (entries : List Entry) :
    (ofEntries dryRun entries).without p =
      ofEntries dryRun (entries.filter fun entry => entry.path ≠ p) := by
  have hfiles : ∀ (entry : Entry) (outcome : FileOutcome),
      entry.outcome? = some outcome → outcome.path = entry.path := by
    rintro (failure | outcome) outcome' ⟨⟩
    rfl
  have hfailures : ∀ (entry : Entry) (failure : FileFailure),
      entry.failure? = some failure → failure.path = entry.path := by
    rintro (failure | outcome) failure' ⟨⟩
    rfl
  rw [without, ofEntries, filter_filterMap_path hfiles, filter_filterMap_path hfailures]
  rfl

end Report

/-! ### The tasks of a run -/

/-- A piece of work of a run: a file to clean, or a directory that cannot be listed. -/
inductive Task
  | file (path : Path)
  | unlisted (dir : Path) (e : FileError)
  deriving DecidableEq, Repr

namespace Task

/-- The file to clean, if the task is about one. -/
def file? : Task → Option Path
  | .file path => some path
  | .unlisted _ _ => none

def path : Task → Path
  | .file path => path
  | .unlisted dir _ => dir

end Task

namespace Cleaner

section Tasks

variable {σ : Type} [WorkTree σ]

/-- The tasks that an argument stands for. -/
def tasksOf (c : Cleaner σ) (tree : σ) (path : Path) : List Task :=
  if WorkTree.isDir tree path then
    match WorkTree.list tree path c.excludeDirs with
    | .ok files => files.map .file
    | .error e => [.unlisted path e]
  else [.file path]

/-- The tasks of a run, in order. -/
def tasks (c : Cleaner σ) (tree : σ) (paths : List Path) : List Task :=
  paths.flatMap (c.tasksOf tree)

/-- The files that the arguments of a run name: each directory that can be listed stands
for the files it lists. -/
def named (c : Cleaner σ) (tree : σ) (paths : List Path) : List Path :=
  (c.tasks tree paths).filterMap Task.file?

/-- What is recorded about a task when it is done on a tree. -/
def entry (c : Cleaner σ) (tree : σ) : Task → Entry
  | .file path => (c.cleanFile tree path).2.mapError fun e => ⟨path, e.message⟩
  | .unlisted dir e => .error ⟨dir, e.message⟩

/-- Do a task. -/
def perform (c : Cleaner σ) (run : σ × Report) : Task → σ × Report
  | .file path => c.recordFile run path
  | .unlisted dir e => (run.1, run.2.record dir (.error (.file e)))

theorem report_perform (c : Cleaner σ) (run : σ × Report) (task : Task) :
    (c.perform run task).2 = run.2.add (c.entry run.1 task) := by
  cases task with
  | file path =>
      show run.2.record path (c.cleanFile run.1 path).2 =
        run.2.add ((c.cleanFile run.1 path).2.mapError fun e => ⟨path, e.message⟩)
      cases (c.cleanFile run.1 path).2 <;> rfl
  | unlisted dir e => rfl

theorem cleanArgument_eq_foldl (c : Cleaner σ) (run : σ × Report) (path : Path) :
    c.cleanArgument run path = (c.tasksOf run.1 path).foldl c.perform run := by
  unfold cleanArgument tasksOf
  split
  · cases WorkTree.list run.1 path c.excludeDirs with
    | ok files =>
        show files.foldl c.recordFile run = (files.map Task.file).foldl c.perform run
        rw [List.foldl_map]
        rfl
    | error e => rfl
  · rfl

/-- The tree behind some files, cleaned one after the other. -/
def cleanFiles (c : Cleaner σ) (tree : σ) (files : List Path) : σ :=
  files.foldl (fun tree path => (c.cleanFile tree path).1) tree

theorem tree_foldl_perform (c : Cleaner σ) (tasks : List Task) (run : σ × Report) :
    (tasks.foldl c.perform run).1 = c.cleanFiles run.1 (tasks.filterMap Task.file?) := by
  induction tasks generalizing run with
  | nil => rfl
  | cons task tasks ih =>
      rw [List.foldl_cons, ih]
      cases task <;> rfl

end Tasks

theorem dirs_cleanFile (c : Cleaner MemoryTree) (tree : MemoryTree) (path : Path) :
    (c.cleanFile tree path).1.dirs = tree.dirs := by
  rw [cleanFile_eq_effect]
  exact tree.dirs_overwrite path _

theorem tasksOf_congr (c : Cleaner MemoryTree) {t u : MemoryTree} (h : t.dirs = u.dirs) :
    c.tasksOf t = c.tasksOf u := by
  funext path
  have hdir : WorkTree.isDir t path = WorkTree.isDir u path := by
    show (t.dirs.lookup path).isSome = (u.dirs.lookup path).isSome
    rw [h]
  have hlist : WorkTree.list t path c.excludeDirs = WorkTree.list u path c.excludeDirs := by
    show t.list path = u.list path
    rw [MemoryTree.list, MemoryTree.list, h]
  rw [tasksOf, tasksOf, hdir, hlist]

theorem dirs_cleanFiles (c : Cleaner MemoryTree) (tree : MemoryTree) (files : List Path) :
    (c.cleanFiles tree files).dirs = tree.dirs := by
  induction files generalizing tree with
  | nil => rfl
  | cons path files ih => exact (ih _).trans (c.dirs_cleanFile tree path)

/-- A run does its tasks one after the other; all of them are known when it begins. -/
theorem cleanAll_eq_foldl (c : Cleaner MemoryTree) (tree : MemoryTree) (paths : List Path) :
    c.cleanAll tree paths =
      (c.tasks tree paths).foldl c.perform (tree, ⟨c.dryRun, [], []⟩) := by
  have hall : ∀ (paths : List Path) (run : MemoryTree × Report), run.1.dirs = tree.dirs →
      paths.foldl c.cleanArgument run = (c.tasks tree paths).foldl c.perform run := by
    intro paths
    induction paths with
    | nil => exact fun run _ => rfl
    | cons path paths ih =>
        intro run hrun
        rw [List.foldl_cons, cleanArgument_eq_foldl, c.tasksOf_congr hrun, tasks,
          List.flatMap_cons, List.foldl_append]
        apply ih
        rw [tree_foldl_perform, dirs_cleanFiles, hrun]
  exact hall paths _ rfl

/-! ### Every task finds its file as it was -/

theorem entry_congr {c c' : Cleaner MemoryTree} {t u : MemoryTree} {task : Task}
    (hregistry : c.registry = c'.registry) (hdry : c.dryRun = c'.dryRun)
    (h : ∀ q ∈ task.file?, c.reference t q = c'.reference u q ∧ t.SameAt u q) :
    c.entry t task = c'.entry u task := by
  cases task with
  | file q =>
      obtain ⟨hreference, hsame⟩ := h q rfl
      rw [entry, entry, (c.effectOn_eq t q).2, (c'.effectOn_eq u q).2,
        effectOn_congr hregistry hdry hreference hsame]
  | unlisted dir e => rfl

/-- The entries of tasks about different files are those of the tree the run began with. -/
theorem report_foldl_perform {c : Cleaner MemoryTree} (hc : c.Steady) {tree : MemoryTree}
    {tasks : List Task} (hnodup : (tasks.filterMap Task.file?).Nodup)
    {run : MemoryTree × Report} (hsame : ∀ q ∈ tasks.filterMap Task.file?, run.1.SameAt tree q) :
    (tasks.foldl c.perform run).2 = (tasks.map (c.entry tree)).foldl Report.add run.2 := by
  induction tasks generalizing run with
  | nil => rfl
  | cons task tasks ih =>
      have hentry : c.entry run.1 task = c.entry tree task := by
        apply entry_congr rfl rfl
        intro q hq
        refine ⟨congrFun (hc run.1 tree) q, hsame q ?_⟩
        exact List.mem_filterMap.2 ⟨task, List.mem_cons_self, hq⟩
      have hreport := c.report_perform run task
      rw [List.map_cons, List.foldl_cons, List.foldl_cons, ← hentry, ← hreport]
      cases task with
      | unlisted dir e => exact ih hnodup hsame
      | file path =>
          have hfiles : (Task.file path :: tasks).filterMap Task.file? =
              path :: tasks.filterMap Task.file? := rfl
          rw [hfiles, List.nodup_cons] at hnodup
          rw [hfiles, List.forall_mem_cons] at hsame
          -- The file just cleaned is none of those to come, so these are as they were.
          apply ih hnodup.2
          intro q hq
          have hne : q ≠ path := fun h => hnodup.1 (h ▸ hq)
          exact (c.sameAt_cleanFile run.1 hne).trans (hsame.2 q hq)

theorem report_cleanAll {c : Cleaner MemoryTree} (hc : c.Steady) {tree : MemoryTree}
    {paths : List Path} (h : (c.named tree paths).Nodup) :
    (c.cleanAll tree paths).2 =
      .ofEntries c.dryRun ((c.tasks tree paths).map (c.entry tree)) := by
  rw [cleanAll_eq_foldl, report_foldl_perform hc h fun q _ => .refl tree q, Report.foldl_add]
  rfl

theorem tree_cleanAll (c : Cleaner MemoryTree) (tree : MemoryTree) (paths : List Path) :
    (c.cleanAll tree paths).1 = c.cleanFiles tree (c.named tree paths) := by
  rw [cleanAll_eq_foldl, tree_foldl_perform]
  rfl

/-- Behind the cleaning of different files, each holds what cleaning it alone gives it, and
every other file what it held. -/
theorem get?_cleanFiles {c : Cleaner MemoryTree} (hc : c.Steady) {files : List Path}
    (h : files.Nodup) (tree : MemoryTree) (q : Path) :
    (c.cleanFiles tree files).get? q =
      if q ∈ files then (c.cleanFile tree q).1.get? q else tree.get? q := by
  induction files generalizing tree with
  | nil => rfl
  | cons path files ih =>
      rw [List.nodup_cons] at h
      show (c.cleanFiles (c.cleanFile tree path).1 files).get? q = _
      rw [ih h.2]
      by_cases hq : q = path
      · subst hq
        rw [if_neg h.1, if_pos List.mem_cons_self]
      · have hsame := c.sameAt_cleanFile tree hq
        have hbytes : (c.cleanFile (c.cleanFile tree path).1 q).1.get? q =
            (c.cleanFile tree q).1.get? q := by
          rw [get?_cleanFile_self, get?_cleanFile_self, hc.effectOn_congr hsame, hsame.bytes]
        rw [hbytes, hsame.bytes]
        simp only [List.mem_cons, hq, false_or]

theorem get?_cleanAll {c : Cleaner MemoryTree} (hc : c.Steady) {tree : MemoryTree}
    {paths : List Path} (h : (c.named tree paths).Nodup) (q : Path) :
    (c.cleanAll tree paths).1.get? q =
      if q ∈ c.named tree paths then (c.cleanFile tree q).1.get? q else tree.get? q := by
  rw [tree_cleanAll, get?_cleanFiles hc h]

/-! ### The order of the arguments -/

theorem named_perm (c : Cleaner MemoryTree) (tree : MemoryTree) {paths paths' : List Path}
    (h : paths'.Perm paths) : (c.named tree paths').Perm (c.named tree paths) :=
  (h.flatMap_right _).filterMap _

/-- A run over the same arguments in another order leaves the same tree. -/
theorem tree_cleanAll_perm {c : Cleaner MemoryTree} (hc : c.Steady) (tree : MemoryTree)
    {paths paths' : List Path} (h : paths'.Perm paths) :
    (c.cleanAll tree paths').1 = (c.cleanAll tree paths).1 := by
  rw [tree_cleanAll, tree_cleanAll]
  exact (c.named_perm tree h).foldl_eq' (fun p _ q _ tree => c.cleanFile_comm hc tree p q) tree

/-! ### Trouble at one path -/

/-- The cleaner with other reference versions. -/
def withReference (c : Cleaner MemoryTree)
    (reference : Path → Except RepositoryError (Option Bytes)) : Cleaner MemoryTree :=
  { c with reference := fun _ => reference }

/-- Two states of references and trees with the same directories that differ at one path
at most. -/
structure AgreeExcept (p : Path) (reference : Path → Except RepositoryError (Option Bytes))
    (tree : MemoryTree) (reference' : Path → Except RepositoryError (Option Bytes))
    (tree' : MemoryTree) : Prop where
  dirs : tree.dirs = tree'.dirs
  reference : ∀ q, q ≠ p → reference q = reference' q
  tree : ∀ q, q ≠ p → tree.SameAt tree' q

/-- An outcome is about the file that was cleaned. -/
theorem path_of_cleanFile {c : Cleaner MemoryTree} {tree : MemoryTree} {path : Path}
    {outcome : FileOutcome} (h : (c.cleanFile tree path).2 = .ok outcome) :
    outcome.path = path := by
  have hfits := c.answerFits_cleanFile tree path
  rw [h] at hfits
  cases outcome with
  | skipped p reason => exact hfits.1
  | processed p rewritten reversions => exact hfits.1

theorem path_entry (c : Cleaner MemoryTree) (tree : MemoryTree) (task : Task) :
    (c.entry tree task).path = task.path := by
  cases task with
  | unlisted dir e => rfl
  | file path =>
      rw [entry]
      cases hanswer : (c.cleanFile tree path).2 with
      | error e => rfl
      | ok outcome => exact path_of_cleanFile hanswer

/-- The entries about other paths are the same in both states. -/
theorem entries_agreeExcept {c : Cleaner MemoryTree} {p : Path}
    {reference' : Path → Except RepositoryError (Option Bytes)} {tree tree' : MemoryTree}
    (h : AgreeExcept p (c.reference tree) tree reference' tree') (tasks : List Task) :
    (tasks.map ((c.withReference reference').entry tree')).filter
        (fun entry => entry.path ≠ p) =
      (tasks.map (c.entry tree)).filter fun entry => entry.path ≠ p := by
  induction tasks with
  | nil => rfl
  | cons task tasks ih =>
      rw [List.map_cons, List.map_cons, List.filter_cons, List.filter_cons, path_entry, path_entry,
        ih]
      by_cases hp : task.path = p
      · simp [hp]
      · have hentry : c.entry tree task =
            (c.withReference reference').entry tree' task := by
          have hregistry : c.registry = (c.withReference reference').registry := rfl
          apply entry_congr hregistry rfl
          intro q hq
          have hne : q ≠ p := by
            cases task with
            | file path => exact Option.some.inj hq ▸ hp
            | unlisted dir e => exact absurd hq (by simp [Task.file?])
          exact ⟨h.reference q hne, h.tree q hne⟩
        rw [hentry]

/-- What is the matter at one path is not seen at another: neither in the report nor in
the bytes of a file. -/
theorem cleanAll_agreeExcept {c : Cleaner MemoryTree} (hc : c.Steady) {p : Path}
    {reference' : Path → Except RepositoryError (Option Bytes)} {tree tree' : MemoryTree}
    {paths : List Path} (h : (c.named tree paths).Nodup)
    (hagree : AgreeExcept p (c.reference tree) tree reference' tree') :
    ((c.withReference reference').cleanAll tree' paths).2.without p =
        (c.cleanAll tree paths).2.without p ∧
      ∀ q, q ≠ p → ((c.withReference reference').cleanAll tree' paths).1.get? q =
        (c.cleanAll tree paths).1.get? q := by
  have htasks : (c.withReference reference').tasks tree' paths = c.tasks tree paths :=
    congrArg paths.flatMap (c.tasksOf_congr hagree.dirs).symm
  have hnamed : (c.withReference reference').named tree' paths = c.named tree paths :=
    congrArg (List.filterMap Task.file?) htasks
  have hc' : (c.withReference reference').Steady := fun _ _ => rfl
  have h' : ((c.withReference reference').named tree' paths).Nodup := hnamed ▸ h
  constructor
  · rw [report_cleanAll hc' h', report_cleanAll hc h, Report.without_ofEntries,
      Report.without_ofEntries, htasks, entries_agreeExcept hagree]
    rfl
  · intro q hq
    have hsame := hagree.tree q hq
    have heffect : c.effectOn tree q = (c.withReference reference').effectOn tree' q :=
      effectOn_congr rfl rfl (hagree.reference q hq) hsame
    rw [get?_cleanAll hc' h', get?_cleanAll hc h, hnamed, get?_cleanFile_self,
      get?_cleanFile_self, heffect, hsame.bytes]

/-- **Files are independent.** When no file is named twice, the report of a run holds for
each task, in order, what doing it alone on the tree as it was at first gives, and the
same holds for the bytes of each file. So whatever is the matter at one path, whether it
is skipped, fails or is cleaned, the report says the same about every other path and every
other file ends with the same bytes; and the arguments in another order leave the same
tree and give the same entries in another order. -/
theorem cleanAll_independent {c : Cleaner MemoryTree} (hc : c.Steady) {tree : MemoryTree}
    {paths : List Path} (h : (c.named tree paths).Nodup) :
    (c.cleanAll tree paths).2 =
      .ofEntries c.dryRun ((c.tasks tree paths).map (c.entry tree)) ∧
    (∀ q, (c.cleanAll tree paths).1.get? q =
      if q ∈ c.named tree paths then (c.cleanFile tree q).1.get? q else tree.get? q) ∧
    (∀ p reference' tree', AgreeExcept p (c.reference tree) tree reference' tree' →
      ((c.withReference reference').cleanAll tree' paths).2.without p =
        (c.cleanAll tree paths).2.without p ∧
      ∀ q, q ≠ p → ((c.withReference reference').cleanAll tree' paths).1.get? q =
        (c.cleanAll tree paths).1.get? q) ∧
    ∀ paths', paths'.Perm paths →
      (c.cleanAll tree paths').1 = (c.cleanAll tree paths).1 ∧
      (c.cleanAll tree paths').2.files.Perm (c.cleanAll tree paths).2.files ∧
      (c.cleanAll tree paths').2.failures.Perm (c.cleanAll tree paths).2.failures := by
  have hreport := report_cleanAll hc h
  refine ⟨hreport, get?_cleanAll hc h, ?_, ?_⟩
  · intro p reference' tree' hagree
    exact cleanAll_agreeExcept hc h hagree
  · intro paths' hperm
    have hentries : ((c.tasks tree paths').map (c.entry tree)).Perm
        ((c.tasks tree paths).map (c.entry tree)) := (hperm.flatMap_right _).map _
    rw [report_cleanAll hc ((c.named_perm tree hperm).nodup_iff.2 h), hreport]
    exact ⟨tree_cleanAll_perm hc tree hperm, hentries.filterMap _, hentries.filterMap _⟩

/-- A tree with a directory of two files, of which one cannot be written, and a directory
that cannot be listed. -/
def troubledTree : MemoryTree where
  files := [(⟨"d/a".toList⟩, Utf8.encode "x \n".toList),
    (⟨"d/b".toList⟩, Utf8.encode " x\n".toList)]
  dirs := [(⟨"d".toList⟩, .ok [⟨"d/a".toList⟩, ⟨"d/b".toList⟩]), (⟨"e".toList⟩, .error .denied)]
  writeFaults := [(⟨"d/b".toList⟩, .lock)]

/-- The file that can be written ends the same whether the other one can be or not, and
whether the directory that cannot be listed comes first or last. -/
theorem cleanAll_independent_of_troubledTree :
    ((inMemory (fun _ => .ok (some (Utf8.encode "x\n".toList))) {} false []).named troubledTree
      [⟨"d".toList⟩, ⟨"e".toList⟩]).Nodup ∧
    ((inMemory (fun _ => .ok (some (Utf8.encode "x\n".toList))) {} false []).cleanAll
        { troubledTree with writeFaults := [] } [⟨"d".toList⟩, ⟨"e".toList⟩]).2.without
          ⟨"d/b".toList⟩ =
      ((inMemory (fun _ => .ok (some (Utf8.encode "x\n".toList))) {} false []).cleanAll
        troubledTree [⟨"d".toList⟩, ⟨"e".toList⟩]).2.without ⟨"d/b".toList⟩ ∧
    ((inMemory (fun _ => .ok (some (Utf8.encode "x\n".toList))) {} false []).cleanAll
        troubledTree [⟨"e".toList⟩, ⟨"d".toList⟩]).1 =
      ((inMemory (fun _ => .ok (some (Utf8.encode "x\n".toList))) {} false []).cleanAll
        troubledTree [⟨"d".toList⟩, ⟨"e".toList⟩]).1 := by
  have hnodup : ((inMemory (fun _ => .ok (some (Utf8.encode "x\n".toList))) {} false []).named
      troubledTree [⟨"d".toList⟩, ⟨"e".toList⟩]).Nodup := by decide
  have hagree : AgreeExcept ⟨"d/b".toList⟩ (fun _ => .ok (some (Utf8.encode "x\n".toList)))
      troubledTree (fun _ => .ok (some (Utf8.encode "x\n".toList)))
      { troubledTree with writeFaults := [] } := by
    refine ⟨rfl, fun _ _ => rfl, fun q hq => ⟨rfl, rfl, rfl, ?_⟩⟩
    have hbeq : (q == ⟨"d/b".toList⟩) = false := by simpa using hq
    show List.lookup q [_] = none
    rw [List.lookup_cons, hbeq]
    rfl
  have hall := cleanAll_independent (c := inMemory _ _ _ _) (fun _ _ => rfl) hnodup
  exact ⟨hnodup, (hall.2.2.1 _ _ _ hagree).1, (hall.2.2.2 _ (.swap _ _ [])).1⟩

end Cleaner

end CleanDiff
