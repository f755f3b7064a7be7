import CleanDiff.Proofs.DryRun
import CleanDiff.Proofs.Reversions
import Mathlib.Algebra.GroupWithZero.Nat

/-!
# The report accounts for the run

**A report loses nothing and invents nothing** (`cleanAll_accounts`), also when files are named
more than once: it has one entry for each task of the run, in the order in which the tasks were
done, and its summary counts these entries.

A file that is cleaned a second time is no longer what it was, so an entry says what cleaning the
file on the tree of its *turn* answers, which is the tree that the tasks before have left. What
an entry can say is known for each turn on its own: a file called rewritten has a reversion
(`one_le_reversions`), and no file has more of them than its two texts have lines
(`reversions_le_linesSeen`).

The sum of the reversions is a word in the summary, so it is the true sum exactly as long as
that is one (`summary_reversions_eq_iff`). Files and arguments that fit in memory can have more
(`not_summary_exact`).
-/

namespace CleanDiff

/-! ### Counting by sorts -/

/-- Where one condition holds of exactly what two others share out, the counts of these add up. -/
theorem countP_add_countP {α : Type} {p q r : α → Bool}
    (h : ∀ a, (p a).toNat + (q a).toNat = (r a).toNat) (as : List α) :
    as.countP p + as.countP q = as.countP r := by
  induction as with
  | nil => rfl
  | cons a as ih =>
      have hone : (bif p a then 1 else 0) + (bif q a then 1 else 0) = bif r a then 1 else 0 := h a
      simp only [cond_eq_ite] at hone
      rw [List.countP_cons, List.countP_cons, List.countP_cons, ← ih]
      omega

/-- Every entry is an outcome or a failure, and not both. -/
theorem Entry.countP_sorts (q : Path → Bool) (entries : List Entry) :
    (entries.filterMap outcome?).countP (fun o => q o.path) +
        (entries.filterMap failure?).countP (fun f => q f.path) =
      entries.countP fun entry => q entry.path := by
  rw [List.countP_filterMap, List.countP_filterMap]
  apply countP_add_countP
  rintro (failure | outcome)
  · exact Nat.zero_add _
  · exact Nat.add_zero _

/-- The directory that could not be listed, if the task is about one. -/
def Task.unlisted? : Task → Option Path
  | .file _ => none
  | .unlisted dir _ => some dir

/-- Every task is about a file or about a directory that could not be listed. -/
theorem Task.countP_sorts (q : Path → Bool) (tasks : List Task) :
    (tasks.filterMap file?).countP q + (tasks.filterMap unlisted?).countP q =
      tasks.countP fun task => q task.path := by
  rw [List.countP_filterMap, List.countP_filterMap]
  apply countP_add_countP
  rintro (path | ⟨dir, e⟩)
  · exact Nat.add_zero _
  · exact Nat.zero_add _

/-- Was the file compared with its reference version and left as it is? -/
def FileOutcome.isUnchanged (o : FileOutcome) : Bool := !o.isRewritten && o.skipReason?.isNone

/-- Every outcome is of one of three sorts. -/
theorem FileOutcome.countP_sorts (outcomes : List FileOutcome) :
    outcomes.countP (·.isRewritten) + outcomes.countP (·.isUnchanged) +
      outcomes.countP (·.skipReason?.isSome) = outcomes.length := by
  have hcompared : outcomes.countP (·.isRewritten) + outcomes.countP (·.isUnchanged) =
      outcomes.countP (·.skipReason?.isNone) := by
    apply countP_add_countP
    rintro (⟨path, rewritten, reversions⟩ | ⟨path, reason⟩)
    · cases rewritten <;> rfl
    · rfl
  have hall : outcomes.countP (·.skipReason?.isNone) + outcomes.countP (·.skipReason?.isSome) =
      outcomes.countP fun _ => true := by
    apply countP_add_countP
    rintro (⟨path, rewritten, reversions⟩ | ⟨path, reason⟩)
    · rfl
    · rfl
  rw [hcompared, hall, List.countP_true]

/-! ### The summary of a report -/

namespace Report

/-- All reversions of a report. -/
def totalReversions (r : Report) : Nat := (r.files.map FileOutcome.reversions).sum

theorem summary_files (r : Report) :
    r.summary.files =
      r.summary.rewritten + r.files.countP (·.isUnchanged) + r.summary.skipped +
        r.summary.failed := by
  have hsorts := FileOutcome.countP_sorts r.files
  simp only [summary]
  omega

theorem summary_reversions (r : Report) :
    r.summary.reversions = r.totalReversions % wordSize := by
  simp only [summary, totalReversions, List.sum, List.foldr_map]

/-- The sum in a summary is the true one as long as it is a word. -/
theorem summary_reversions_eq_iff (r : Report) :
    r.summary.reversions = r.totalReversions ↔ r.totalReversions < wordSize := by
  rw [summary_reversions]
  constructor
  · intro h
    rw [← h]
    exact Nat.mod_lt _ (by decide)
  · exact Nat.mod_eq_of_lt

end Report

namespace Cleaner

section Turns

variable {σ : Type} [WorkTree σ]

/-! ### What one entry can say -/

/-- How many lines the two texts have that are compared when a file is cleaned; none if it is not
compared. -/
def linesSeen (c : Cleaner σ) (tree : σ) (path : Path) : Nat :=
  match c.examine tree path with
  | .ok (.texts reference working) => reference.lines.length + working.lines.length
  | _ => 0

theorem linesSeen_of_texts {c : Cleaner σ} {tree : σ} {path : Path} {reference working : Text}
    (h : c.examine tree path = .ok (.texts reference working)) :
    c.linesSeen tree path = reference.lines.length + working.lines.length := by
  rw [linesSeen, h]

/-- No file has more reversions than its two texts have lines. -/
theorem reversions_le_linesSeen {c : Cleaner σ} {tree : σ} {path : Path} {outcome : FileOutcome}
    (h : (c.cleanFile tree path).2 = .ok outcome) :
    outcome.reversions ≤ c.linesSeen tree path := by
  have hcounted : ∀ {reference working : Text},
      c.examine tree path = .ok (.texts reference working) →
        (c.cleaned path reference working).reversions ≤ c.linesSeen tree path := by
    intro reference working texts
    rw [linesSeen_of_texts texts]
    exact reversions_denoise_le _ _ _
  have hstep := c.step_cleanFile tree path
  generalize c.cleanFile tree path = result at hstep h
  cases hstep with
  | failed | unwritten => exact absurd h (by simp)
  | skipped reason =>
      cases h
      exact Nat.zero_le _
  | same texts | announced texts | written texts =>
      cases h
      exact hcounted texts

/-- A file is rewritten only if something in it was taken back. -/
theorem one_le_reversions {c : Cleaner σ} {tree : σ} {path : Path} {outcome : FileOutcome}
    (h : (c.cleanFile tree path).2 = .ok outcome) (hrewritten : outcome.isRewritten = true) :
    1 ≤ outcome.reversions := by
  have hcounted : ∀ {reference working : Text},
      (c.cleaned path reference working).content ≠ working →
        1 ≤ (c.cleaned path reference working).reversions := by
    intro reference working hcontent
    rw [Nat.one_le_iff_ne_zero]
    exact fun hzero => hcontent (content_of_reversions_eq_zero hzero)
  have hstep := c.step_cleanFile tree path
  generalize c.cleanFile tree path = result at hstep h
  cases hstep with
  | failed | unwritten => exact absurd h (by simp)
  | skipped | same =>
      cases h
      exact absurd hrewritten (by simp [FileOutcome.isRewritten])
  | announced texts content | written texts content =>
      cases h
      exact hcounted content

/-! ### The turns of a run -/

/-- The tree behind a task. -/
def treeBehind (c : Cleaner σ) (tree : σ) : Task → σ
  | .file path => (c.cleanFile tree path).1
  | .unlisted _ _ => tree

/-- Each of some tasks with the tree that it finds when its turn comes. -/
def turns (c : Cleaner σ) (tree : σ) : List Task → List (σ × Task)
  | [] => []
  | task :: tasks => (tree, task) :: c.turns (c.treeBehind tree task) tasks

/-- What is recorded when a task is done in its turn. -/
def entryAt (c : Cleaner σ) (turn : σ × Task) : Entry := c.entry turn.1 turn.2

/-- The directories among the arguments that cannot be listed. -/
def unlisted (c : Cleaner σ) (tree : σ) (paths : List Path) : List Path :=
  (c.tasks tree paths).filterMap Task.unlisted?

theorem map_snd_turns (c : Cleaner σ) (tree : σ) (tasks : List Task) :
    (c.turns tree tasks).map Prod.snd = tasks := by
  induction tasks generalizing tree with
  | nil => rfl
  | cons task tasks ih => rw [turns, List.map_cons, ih]

theorem tree_perform (c : Cleaner σ) (run : σ × Report) (task : Task) :
    (c.perform run task).1 = c.treeBehind run.1 task := by
  cases task <;> rfl

/-- Tasks that are done one after the other add an entry each, that of their turn. -/
theorem report_foldl_turns (c : Cleaner σ) (tasks : List Task) (run : σ × Report) :
    (tasks.foldl c.perform run).2 =
      ((c.turns run.1 tasks).map c.entryAt).foldl Report.add run.2 := by
  induction tasks generalizing run with
  | nil => rfl
  | cons task tasks ih =>
      rw [List.foldl_cons, ih, tree_perform, report_perform, turns, List.map_cons, List.foldl_cons]
      rfl

/-- The outcome of a turn is that of a file. -/
theorem exists_cleanFile_of_entryAt {c : Cleaner σ} {turn : σ × Task} {outcome : FileOutcome}
    (h : c.entryAt turn = .ok outcome) :
    ∃ path, turn.2 = .file path ∧ (c.cleanFile turn.1 path).2 = .ok outcome := by
  obtain ⟨tree, task⟩ := turn
  cases task with
  | unlisted dir e => exact absurd h (by simp [entryAt, entry])
  | file path =>
      refine ⟨path, rfl, ?_⟩
      have hentry : (c.cleanFile tree path).2.mapError
          (fun e => (⟨path, e.message⟩ : FileFailure)) = .ok outcome := h
      cases hanswer : (c.cleanFile tree path).2 with
      | error e =>
          rw [hanswer] at hentry
          exact absurd hentry (by simp [Except.mapError])
      | ok o =>
          rw [hanswer] at hentry
          exact congrArg _ (Except.ok.inj hentry)

theorem reversions_entryAt_le {c : Cleaner σ} {turn : σ × Task} {outcome : FileOutcome}
    (h : c.entryAt turn = .ok outcome) :
    outcome.reversions ≤ c.linesSeen turn.1 turn.2.path := by
  obtain ⟨path, htask, hanswer⟩ := exists_cleanFile_of_entryAt h
  rw [htask]
  exact reversions_le_linesSeen hanswer

theorem one_le_reversions_of_entryAt {c : Cleaner σ} {turn : σ × Task} {outcome : FileOutcome}
    (h : c.entryAt turn = .ok outcome) (hrewritten : outcome.isRewritten = true) :
    1 ≤ outcome.reversions := by
  obtain ⟨path, -, hanswer⟩ := exists_cleanFile_of_entryAt h
  exact one_le_reversions hanswer hrewritten

end Turns

theorem report_cleanAll_turns (c : Cleaner MemoryTree) (tree : MemoryTree) (paths : List Path) :
    (c.cleanAll tree paths).2 =
      .ofEntries c.dryRun ((c.turns tree (c.tasks tree paths)).map c.entryAt) := by
  rw [cleanAll_eq_foldl, report_foldl_turns, Report.foldl_add]
  rfl

/-- Tasks and entries are about the same paths, in the same order. -/
theorem map_path_entries (c : Cleaner MemoryTree) (tree : MemoryTree) (tasks : List Task) :
    ((c.turns tree tasks).map c.entryAt).map Entry.path = tasks.map Task.path := by
  have hpath : Entry.path ∘ c.entryAt = Task.path ∘ Prod.snd := by
    funext turn
    exact c.path_entry turn.1 turn.2
  rw [List.map_map, hpath, ← List.map_map, map_snd_turns]

/-- What is counted among the entries by their paths is what the tasks name. -/
theorem countP_entries (c : Cleaner MemoryTree) (tree : MemoryTree) (paths : List Path)
    (q : Path → Bool) :
    (c.cleanAll tree paths).2.files.countP (fun o => q o.path) +
        (c.cleanAll tree paths).2.failures.countP (fun f => q f.path) =
      (c.named tree paths).countP q + (c.unlisted tree paths).countP q := by
  rw [report_cleanAll_turns, named, unlisted, Task.countP_sorts]
  show (List.filterMap Entry.outcome? _).countP _ + (List.filterMap Entry.failure? _).countP _ = _
  rw [Entry.countP_sorts]
  show List.countP (q ∘ Entry.path) _ = List.countP (q ∘ Task.path) _
  rw [← List.countP_map, map_path_entries, List.countP_map]

/-- A failure is that of a directory that cannot be listed, or of a file whose cleaning fails. -/
theorem countP_failures (c : Cleaner MemoryTree) (turns : List (MemoryTree × Task)) (p : Path) :
    ((turns.map Prod.snd).filterMap Task.unlisted?).count p +
        turns.countP (fun turn => turn.2 = .file p ∧ (c.entryAt turn).failure?.isSome) =
      ((turns.map c.entryAt).filterMap Entry.failure?).countP fun f => f.path = p := by
  rw [List.count, List.countP_filterMap, List.countP_filterMap, List.countP_map, List.countP_map]
  apply countP_add_countP
  rintro ⟨tree, path | ⟨dir, e⟩⟩
  · have hpath : (c.entryAt (tree, .file path)).path = path := c.path_entry tree (.file path)
    simp only [Function.comp_apply, Task.unlisted?]
    cases hanswer : c.entryAt (tree, .file path) with
    | ok outcome => simp [Entry.failure?]
    | error failure =>
        rw [hanswer] at hpath
        have hfailure : failure.path = path := hpath
        simp [Entry.failure?, hfailure]
  · simp [Task.unlisted?, entryAt, entry, Entry.failure?, beq_eq_decide]

/-- All reversions together are no more than all lines compared. -/
theorem sum_reversions_le (c : Cleaner MemoryTree) (turns : List (MemoryTree × Task)) :
    (((turns.map c.entryAt).filterMap Entry.outcome?).map FileOutcome.reversions).sum ≤
      (turns.map fun turn => c.linesSeen turn.1 turn.2.path).sum := by
  induction turns with
  | nil => exact Nat.le_refl _
  | cons turn turns ih =>
      rw [List.map_cons, List.map_cons, List.sum_cons]
      cases hentry : c.entryAt turn with
      | error failure =>
          rw [List.filterMap_cons_none rfl]
          omega
      | ok outcome =>
          have hone := reversions_entryAt_le hentry
          have houtcome : Entry.outcome? (.ok outcome) = some outcome := rfl
          rw [List.filterMap_cons_some houtcome, List.map_cons, List.sum_cons]
          omega

/-! ### The report as a whole -/

/-- What a report says about a run over some arguments, if nothing is lost in it and nothing made
up. -/
structure Accounts (c : Cleaner MemoryTree) (tree : MemoryTree) (paths : List Path)
    (report : Report) : Prop where
  /-- Every task has its turn, in order. -/
  turns : (c.turns tree (c.tasks tree paths)).map Prod.snd = c.tasks tree paths
  /-- Every turn has one entry, in order. The report has no other entries, and the flag of the
  cleaner. -/
  entries : report = .ofEntries c.dryRun ((c.turns tree (c.tasks tree paths)).map c.entryAt)
  /-- A path has as many entries as it is named by the arguments, or cannot be listed. -/
  occurrences : ∀ p,
    report.files.countP (·.path = p) + report.failures.countP (·.path = p) =
      (c.named tree paths).count p + (c.unlisted tree paths).count p
  /-- A directory has one failure each time it cannot be listed; any other failure is that of a
  file. -/
  failures : ∀ p,
    report.failures.countP (·.path = p) =
      (c.unlisted tree paths).count p +
        (c.turns tree (c.tasks tree paths)).countP
          fun turn => turn.2 = .file p ∧ (c.entryAt turn).failure?.isSome
  /-- The summary counts the files that are named and the directories that cannot be listed. -/
  files : report.summary.files = (c.named tree paths).length + (c.unlisted tree paths).length
  /-- Each of them is counted as one of four sorts. -/
  sorts : report.summary.files =
    report.summary.rewritten + report.files.countP (·.isUnchanged) + report.summary.skipped +
      report.summary.failed
  /-- The reversions of the summary are the sum over the entries, counted in a word. -/
  reversions : report.summary.reversions = report.totalReversions % wordSize
  exact : report.summary.reversions = report.totalReversions ↔ report.totalReversions < wordSize
  /-- That sum is no more than all the lines compared. -/
  lines : report.totalReversions ≤
    ((c.turns tree (c.tasks tree paths)).map fun turn => c.linesSeen turn.1 turn.2.path).sum
  /-- No entry has more reversions than the two texts compared in its turn have lines. -/
  linesOfEntry : ∀ turn ∈ c.turns tree (c.tasks tree paths), ∀ outcome,
    c.entryAt turn = .ok outcome → outcome.reversions ≤ c.linesSeen turn.1 turn.2.path
  /-- A file is rewritten only if something in it was taken back. -/
  rewritten : ∀ outcome ∈ report.files, outcome.isRewritten = true → 1 ≤ outcome.reversions

/-- **A report accounts for its run**, whatever its arguments are and however often they name a
file. -/
theorem cleanAll_accounts (c : Cleaner MemoryTree) (tree : MemoryTree) (paths : List Path) :
    c.Accounts tree paths (c.cleanAll tree paths).2 where
  turns := c.map_snd_turns tree _
  entries := c.report_cleanAll_turns tree paths
  occurrences p := c.countP_entries tree paths (· = p)
  failures p := by
    have hfailures := c.countP_failures (c.turns tree (c.tasks tree paths)) p
    rw [map_snd_turns] at hfailures
    rw [report_cleanAll_turns]
    exact hfailures.symm
  files := by
    have hall := c.countP_entries tree paths fun _ => true
    simp only [List.countP_true] at hall
    exact hall
  sorts := Report.summary_files _
  reversions := Report.summary_reversions _
  exact := Report.summary_reversions_eq_iff _
  lines := by
    rw [report_cleanAll_turns]
    exact c.sum_reversions_le _
  linesOfEntry turn _ outcome h := reversions_entryAt_le h
  rewritten outcome h hrewritten := by
    rw [report_cleanAll_turns] at h
    obtain ⟨entry, hentry, houtcome⟩ := List.mem_filterMap.1 h
    obtain ⟨turn, -, rfl⟩ := List.mem_map.1 hentry
    cases hanswer : c.entryAt turn with
    | error failure => exact absurd houtcome (by simp [hanswer, Entry.outcome?])
    | ok o =>
        rw [hanswer] at houtcome
        cases houtcome
        exact one_le_reversions_of_entryAt hanswer hrewritten

/-- A file that is named twice, beside one that cannot be written and a directory that cannot be
listed have four entries together. -/
theorem cleanAll_accounts_for_troubledTree :
    (inMemory (fun _ => .ok (some (Utf8.encode "x\n".toList))) {} false []).named troubledTree
        [⟨"d".toList⟩, ⟨"e".toList⟩, ⟨"d/a".toList⟩] =
      [⟨"d/a".toList⟩, ⟨"d/b".toList⟩, ⟨"d/a".toList⟩] ∧
    (inMemory (fun _ => .ok (some (Utf8.encode "x\n".toList))) {} false []).unlisted troubledTree
        [⟨"d".toList⟩, ⟨"e".toList⟩, ⟨"d/a".toList⟩] = [⟨"e".toList⟩] ∧
    ((inMemory (fun _ => .ok (some (Utf8.encode "x\n".toList))) {} false []).cleanAll troubledTree
        [⟨"d".toList⟩, ⟨"e".toList⟩, ⟨"d/a".toList⟩]).2.summary.files = 4 := by
  have hnamed : (inMemory (fun _ => .ok (some (Utf8.encode "x\n".toList))) {} false []).named
      troubledTree [⟨"d".toList⟩, ⟨"e".toList⟩, ⟨"d/a".toList⟩] =
        [⟨"d/a".toList⟩, ⟨"d/b".toList⟩, ⟨"d/a".toList⟩] := by decide
  have hunlisted : (inMemory (fun _ => .ok (some (Utf8.encode "x\n".toList))) {} false []).unlisted
      troubledTree [⟨"d".toList⟩, ⟨"e".toList⟩, ⟨"d/a".toList⟩] = [⟨"e".toList⟩] := by decide
  refine ⟨hnamed, hunlisted, ?_⟩
  rw [(cleanAll_accounts _ _ _).files, hnamed, hunlisted]
  rfl

/-! ### A sum that is not a word -/

/-- What a dry run reports of a file whose two texts it compares. -/
theorem exists_reversions_of_dryRun {c : Cleaner MemoryTree} (hdry : c.dryRun = true)
    {tree : MemoryTree} {path : Path} {reference working : Text}
    (h : c.examine tree path = .ok (.texts reference working)) :
    ∃ outcome, (c.cleanFile tree path).2 = .ok outcome ∧
      outcome.reversions = (denoise (c.profileOf path) reference working).reversions := by
  unfold cleanFile
  rw [h]
  dsimp only
  split
  · next hzero => exact ⟨_, rfl, hzero.symm⟩
  · split
    · exact ⟨_, rfl, rfl⟩
    · exact ⟨_, rfl, rfl⟩

/-- A dry run finds the same tree at every turn. -/
theorem turns_of_dryRun {c : Cleaner MemoryTree} (hdry : c.dryRun = true) (tree : MemoryTree)
    (tasks : List Task) : c.turns tree tasks = tasks.map fun task => (tree, task) := by
  induction tasks with
  | nil => rfl
  | cons task tasks ih =>
      have hbehind : c.treeBehind tree task = tree := by
        cases task with
        | file path => exact cleanFile_of_dryRun hdry tree path
        | unlisted dir e => rfl
      rw [turns, hbehind, ih, List.map_cons]

/-- Naming a file again and again in a dry run adds its reversions each time. -/
theorem totalReversions_replicate {c : Cleaner MemoryTree} (hdry : c.dryRun = true)
    {tree : MemoryTree} {path : Path} (hdir : WorkTree.isDir tree path = false)
    {reference working : Text} (h : c.examine tree path = .ok (.texts reference working))
    (k : Nat) :
    (c.cleanAll tree (List.replicate k path)).2.totalReversions =
      k * (denoise (c.profileOf path) reference working).reversions := by
  obtain ⟨outcome, hanswer, hreversions⟩ := exists_reversions_of_dryRun hdry h
  have htask : c.tasksOf tree path = [.file path] := by
    rw [tasksOf, if_neg (by simp [hdir])]
  have hentry : c.entryAt (tree, .file path) = .ok outcome := by
    rw [entryAt, entry, hanswer]
    rfl
  have houtcome : Entry.outcome? (.ok outcome) = some outcome := rfl
  have htasks : c.tasks tree (List.replicate k path) = List.replicate k (.file path) := by
    rw [tasks, List.flatMap_replicate, htask, List.flatten_replicate_singleton]
  have hfiles : (c.cleanAll tree (List.replicate k path)).2.files = List.replicate k outcome := by
    rw [report_cleanAll_turns, turns_of_dryRun hdry, htasks]
    simp only [Report.ofEntries, List.map_replicate, hentry,
      List.filterMap_replicate_of_some houtcome]
  rw [Report.totalReversions, hfiles, List.map_replicate, List.sum_replicate, hreversions,
    Nat.nsmul_eq_mul]

theorem length_encode_column (n : Nat) (line last : Text) :
    (Utf8.encode (Text.column n line last)).length =
      n * (Utf8.encode line).length + (Utf8.encode last).length := by
  induction n with
  | zero => simp [Text.column]
  | succ n ih =>
      rw [Text.column_succ, Utf8.encode_append, List.length_append, ih, Nat.succ_mul]
      omega

/-- A tree with one file of empty lines. -/
def emptyLinesTree (n : Nat) : MemoryTree where
  files := [(⟨"t".toList⟩, Utf8.encode (Text.emptyLines n))]

/-- A dry run, with a reference version that has a blank on each of these lines. -/
def emptyLinesCleaner (n : Nat) : Cleaner MemoryTree :=
  inMemory (fun _ => .ok (some (Utf8.encode (Text.blankLines n)))) {} true []

theorem totalReversions_emptyLines (n k : Nat) :
    ((emptyLinesCleaner n).cleanAll (emptyLinesTree n)
      (List.replicate k ⟨"t".toList⟩)).2.totalReversions = k * n := by
  have hexamine : (emptyLinesCleaner n).examine (emptyLinesTree n) ⟨"t".toList⟩ =
      .ok (.texts (Text.blankLines n) (Text.emptyLines n)) := by
    have hseen : (emptyLinesCleaner n).examine (emptyLinesTree n) ⟨"t".toList⟩ =
        .ok (.texts (Utf8.decodeLossy _) _) :=
      examine_of_texts rfl rfl rfl rfl (Utf8.decode?_encode _)
    rwa [Utf8.decodeLossy_encode] at hseen
  have hprofile : (emptyLinesCleaner n).profileOf ⟨"t".toList⟩ = none := rfl
  rw [totalReversions_replicate rfl rfl hexamine, hprofile, reversions_denoise_emptyLines]

/-- **The sum in a summary need not be that of the entries**, not even where the files and the
arguments fit in memory: a file with 2^32 lines that differ by a blank, named 2^32 times. -/
theorem not_summary_exact :
    ((emptyLinesCleaner (2 ^ 32)).cleanAll (emptyLinesTree (2 ^ 32))
        (List.replicate (2 ^ 32) ⟨"t".toList⟩)).2.summary.reversions ≠
      ((emptyLinesCleaner (2 ^ 32)).cleanAll (emptyLinesTree (2 ^ 32))
        (List.replicate (2 ^ 32) ⟨"t".toList⟩)).2.totalReversions ∧
    ((emptyLinesCleaner (2 ^ 32)).cleanAll (emptyLinesTree (2 ^ 32))
        (List.replicate (2 ^ 32) ⟨"t".toList⟩)).2.totalReversions = wordSize ∧
    (Utf8.encode (Text.blankLines (2 ^ 32))).length = 2 ^ 33 + 2 ∧
    (Utf8.encode (Text.emptyLines (2 ^ 32))).length = 2 ^ 32 + 2 := by
  have htotal := totalReversions_emptyLines (2 ^ 32) (2 ^ 32)
  have hword : 2 ^ 32 * 2 ^ 32 = wordSize := by decide
  refine ⟨?_, htotal.trans hword, ?_, ?_⟩
  · rw [Ne, Report.summary_reversions_eq_iff, htotal, hword]
    exact Nat.lt_irrefl _
  · rw [Text.blankLines, length_encode_column]
    decide
  · rw [Text.emptyLines, length_encode_column]
    decide

end Cleaner

end CleanDiff
