import CleanDiff.Proofs.Independence

/-!
# A dry run predicts the real one

**Where no write fails, a dry run reports what the run itself would report**, and the files
it calls rewritten are exactly those whose bytes the run changes.

The real run reads a tree that changes under it. That it reports the same all the same is
the independence of files: each entry is the one of the tree as it was at first
(`report_cleanAll`), and there a dry cleaner and a real one answer alike
(`answer_withDryRun`). A file called rewritten holds another text, and another text has
other bytes (`get?_cleanFile_ne_iff`).
-/

namespace CleanDiff

namespace Cleaner

/-- The cleaner for a dry run, or for a real one. -/
def withDryRun (c : Cleaner MemoryTree) (dryRun : Bool) : Cleaner MemoryTree :=
  { c with dryRun := dryRun }

/-! ### One file -/

/-- A dry cleaner answers as a real one does whose write succeeds. -/
theorem answer_withDryRun (c : Cleaner MemoryTree) {tree : MemoryTree} {path : Path}
    (hwrite : tree.writeFaults.lookup path = none) :
    ((c.withDryRun true).cleanFile tree path).2 = ((c.withDryRun false).cleanFile tree path).2 := by
  have hexamine : (c.withDryRun true).examine tree path = (c.withDryRun false).examine tree path :=
    examine_congr rfl (.refl tree path)
  rw [(effectOn_eq _ tree path).2, (effectOn_eq _ tree path).2, effectOn, effectOn, hexamine,
    hwrite]
  cases (c.withDryRun false).examine tree path with
  | error e => rfl
  | ok seen =>
    cases seen with
    | skip reason => rfl
    | texts reference working =>
      -- The cleaned text is the same on both sides, and only then is it written or not.
      by_cases hsame : (c.cleaned path reference working).content = working
      · have hdry : ((c.withDryRun true).cleaned path reference working).content = working := hsame
        have hreal : ((c.withDryRun false).cleaned path reference working).content = working :=
          hsame
        simp only [effect, if_pos hdry, if_pos hreal]
        rfl
      · have hdry : ((c.withDryRun true).cleaned path reference working).content ≠ working := hsame
        have hreal : ((c.withDryRun false).cleaned path reference working).content ≠ working :=
          hsame
        simp only [effect, if_neg hdry, if_neg hreal]
        rfl

theorem entry_withDryRun (c : Cleaner MemoryTree) {tree : MemoryTree} {task : Task}
    (hwrite : ∀ q ∈ task.file?, tree.writeFaults.lookup q = none) :
    (c.withDryRun true).entry tree task = (c.withDryRun false).entry tree task := by
  cases task with
  | file path => rw [entry, entry, c.answer_withDryRun (hwrite path rfl)]
  | unlisted dir e => rfl

theorem cleanFile_of_dryRun {c : Cleaner MemoryTree} (hdry : c.dryRun = true) (tree : MemoryTree)
    (path : Path) : (c.cleanFile tree path).1 = tree := by
  have hstep := c.step_cleanFile tree path
  generalize c.cleanFile tree path = result at hstep ⊢
  cases hstep with
  | failed | skipped | same | announced => rfl
  | written _ _ dry | unwritten _ _ dry =>
      rw [hdry] at dry
      exact absurd dry (by simp)

/-- The bytes of a file change exactly if the answer calls it rewritten. -/
theorem get?_cleanFile_ne_iff {c : Cleaner MemoryTree} (hdry : c.dryRun = false)
    (tree : MemoryTree) (path : Path) :
    (c.cleanFile tree path).1.get? path ≠ tree.get? path ↔
      ∃ outcome, (c.cleanFile tree path).2 = .ok outcome ∧ outcome.isRewritten = true := by
  have hfits := c.answerFits_cleanFile tree path
  cases hanswer : (c.cleanFile tree path).2 with
  | error e =>
      rw [hanswer] at hfits
      rw [show (c.cleanFile tree path).1 = tree from hfits]
      simp
  | ok outcome =>
      rw [hanswer] at hfits
      simp only [Except.ok.injEq, exists_eq_left']
      cases outcome with
      | skipped p reason =>
          rw [hfits.2]
          simp [FileOutcome.isRewritten]
      | processed p rewritten reversions =>
          obtain ⟨-, -, committed, old, text, -, hold, hdecode, hrewritten, hafter⟩ := hfits
          rw [hafter hdry, hold, ← Utf8.encode_of_decode? hdecode, FileOutcome.isRewritten,
            hrewritten, Ne, Option.some.injEq, Utf8.encode_injective.eq_iff]

/-! ### Whole runs -/

theorem outcome?_entry_eq_some_iff {c : Cleaner MemoryTree} {tree : MemoryTree} {task : Task}
    {outcome : FileOutcome} :
    (c.entry tree task).outcome? = some outcome ↔
      ∃ path, task.file? = some path ∧ (c.cleanFile tree path).2 = .ok outcome := by
  cases task with
  | unlisted dir e => simp [entry, Entry.outcome?, Task.file?]
  | file path =>
      simp only [entry, Task.file?, Option.some.injEq, exists_eq_left']
      cases (c.cleanFile tree path).2 <;> simp [Except.mapError, Entry.outcome?]

/-- The outcomes in the report of a run are those of the files named. -/
theorem mem_files_iff {c : Cleaner MemoryTree} (hc : c.Steady) {tree : MemoryTree}
    {paths : List Path} (h : (c.named tree paths).Nodup) {outcome : FileOutcome} :
    outcome ∈ (c.cleanAll tree paths).2.files ↔
      ∃ path ∈ c.named tree paths, (c.cleanFile tree path).2 = .ok outcome := by
  rw [report_cleanAll hc h]
  show outcome ∈ (List.map _ _).filterMap Entry.outcome? ↔ _
  simp only [List.mem_filterMap, List.mem_map, exists_exists_and_eq_and,
    outcome?_entry_eq_some_iff, named]
  constructor
  · rintro ⟨task, htask, path, hfile, hanswer⟩
    exact ⟨path, ⟨task, htask, hfile⟩, hanswer⟩
  · rintro ⟨path, ⟨task, htask, hfile⟩, hanswer⟩
    exact ⟨task, htask, path, hfile, hanswer⟩

theorem tree_cleanAll_of_dryRun {c : Cleaner MemoryTree} (hdry : c.dryRun = true)
    (tree : MemoryTree) (paths : List Path) : (c.cleanAll tree paths).1 = tree :=
  cleanAll_induction (motive := fun after => after = tree)
    (fun after path hafter => (cleanFile_of_dryRun hdry after path).trans hafter) rfl paths

/-- **A dry run predicts the real one.** When no file is named twice and every file named
can be written, a dry run leaves the tree as it is and reports what the real run reports;
and the real run changes the bytes of a file exactly if the dry run calls it rewritten. -/
theorem dryRun_predicts {c : Cleaner MemoryTree} (hc : c.Steady) {tree : MemoryTree}
    {paths : List Path} (h : (c.named tree paths).Nodup)
    (hwrite : ∀ q ∈ c.named tree paths, tree.writeFaults.lookup q = none) :
    ((c.withDryRun true).cleanAll tree paths).1 = tree ∧
    ((c.withDryRun true).cleanAll tree paths).2 =
      { ((c.withDryRun false).cleanAll tree paths).2 with dryRun := true } ∧
    ∀ q, ((c.withDryRun false).cleanAll tree paths).1.get? q ≠ tree.get? q ↔
      ∃ outcome ∈ ((c.withDryRun true).cleanAll tree paths).2.files,
        outcome.path = q ∧ outcome.isRewritten = true := by
  have hdry : (c.withDryRun true).Steady := hc
  have hreal : (c.withDryRun false).Steady := hc
  have hentries : (c.tasks tree paths).map ((c.withDryRun true).entry tree) =
      (c.tasks tree paths).map ((c.withDryRun false).entry tree) := by
    apply List.map_congr_left
    intro task htask
    apply c.entry_withDryRun
    intro q hq
    exact hwrite q (List.mem_filterMap.2 ⟨task, htask, hq⟩)
  refine ⟨tree_cleanAll_of_dryRun rfl tree paths, ?_, ?_⟩
  · rw [report_cleanAll hdry h, report_cleanAll hreal h]
    exact congrArg (Report.ofEntries true) hentries
  · intro q
    have hbytes : ((c.withDryRun false).cleanAll tree paths).1.get? q =
        if q ∈ c.named tree paths then ((c.withDryRun false).cleanFile tree q).1.get? q
        else tree.get? q := get?_cleanAll hreal h q
    constructor
    · intro hne
      have hq : q ∈ c.named tree paths := by
        by_contra hq
        exact hne (by rw [hbytes, if_neg hq])
      rw [hbytes, if_pos hq, get?_cleanFile_ne_iff rfl, ← c.answer_withDryRun (hwrite q hq)] at hne
      obtain ⟨outcome, hanswer, hrewritten⟩ := hne
      exact ⟨outcome, (mem_files_iff hdry h).2 ⟨q, hq, hanswer⟩, path_of_cleanFile hanswer,
        hrewritten⟩
    · rintro ⟨outcome, hmem, rfl, hrewritten⟩
      obtain ⟨path, hpath, hanswer⟩ := (mem_files_iff hdry h).1 hmem
      obtain rfl := path_of_cleanFile hanswer
      have hq : outcome.path ∈ c.named tree paths := hpath
      rw [hbytes, if_pos hq, get?_cleanFile_ne_iff rfl, ← c.answer_withDryRun (hwrite _ hq)]
      exact ⟨outcome, hanswer, hrewritten⟩

/-- A file whose noise is taken back, one that is what it was and one that is not text: the
dry run over their directory tells the run itself. -/
theorem dryRun_predicts_of_directory :
    let c := inMemory (fun _ => .ok (some (Utf8.encode "x\n".toList))) {} true []
    let tree : MemoryTree :=
      { files := [(⟨"d/a".toList⟩, Utf8.encode "x \n".toList),
          (⟨"d/b".toList⟩, Utf8.encode "x\n".toList), (⟨"d/c".toList⟩, [0xFF])]
        dirs := [(⟨"d".toList⟩, .ok [⟨"d/a".toList⟩, ⟨"d/b".toList⟩, ⟨"d/c".toList⟩])] }
    (c.named tree [⟨"d".toList⟩]).Nodup ∧
    (∀ q ∈ c.named tree [⟨"d".toList⟩], tree.writeFaults.lookup q = none) ∧
    ((c.withDryRun true).cleanAll tree [⟨"d".toList⟩]).2.files =
      ((c.withDryRun false).cleanAll tree [⟨"d".toList⟩]).2.files := by
  intro c tree
  have hnodup : (c.named tree [⟨"d".toList⟩]).Nodup := by decide
  have hwrite : ∀ q ∈ c.named tree [⟨"d".toList⟩], tree.writeFaults.lookup q = none :=
    fun _ _ => rfl
  have hall := dryRun_predicts (c := c) (fun _ _ => rfl) hnodup hwrite
  exact ⟨hnodup, hwrite, by rw [hall.2.1]⟩

end Cleaner

end CleanDiff
