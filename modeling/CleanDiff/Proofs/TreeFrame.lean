import CleanDiff.Cleaner
import CleanDiff.Proofs.FixedPoint
import CleanDiff.Proofs.Utf8
import CleanDiff.WorkTree.Memory

/-!
# What a run does to a tree

**A file is rewritten only by its own cleaning, and only to the text that was
announced.** Everything about one file is read off two inversions: `examine_eq_texts`
says what is known of a file whose two texts are compared, `step_cleanFile` says what
becomes of it. That nothing is written when nothing was counted rests on
`content_of_reversions_eq_zero`: the count alone decides that the text is the same.

A whole run is a fold of such steps, so what every step keeps a run keeps
(`Cleaner.cleanAll_induction`). The files that no run ever changes are the *protected*
ones: links, files without a reference version, files that are not text, and files
whose writing fails.
-/

namespace CleanDiff

namespace Cleaner

variable {σ : Type} [WorkTree σ]

/-! ### One file -/

/-- What is known of a file whose two texts are compared. -/
theorem examine_eq_texts {c : Cleaner σ} {tree : σ} {path : Path} {reference working : Text}
    (h : c.examine tree path = .ok (.texts reference working)) :
    WorkTree.isSymlink tree path = false ∧ WorkTree.isFile tree path = true ∧
      ∃ committed old, c.reference tree path = .ok (some committed) ∧
        WorkTree.read tree path = .ok old ∧ Utf8.decode? old = some working ∧
        reference = Utf8.decodeLossy committed := by
  unfold examine at h
  split at h
  · exact absurd h (by simp)
  · next hlink =>
    split at h
    · exact absurd h (by simp)
    · next hfile =>
      split at h
      · exact absurd h (by simp)
      · exact absurd h (by simp)
      · next committed hcommitted =>
        split at h
        · split at h <;> exact absurd h (by simp)
        · next old hold =>
          split at h
          · exact absurd h (by simp)
          · next text htext =>
            cases h
            exact ⟨by simpa using hlink, by simpa using hfile, committed, old, hcommitted, hold,
              htext, rfl⟩

/-- A file that is there, and whose two versions can be read, is compared. -/
theorem examine_of_texts {c : Cleaner σ} {tree : σ} {path : Path} {committed old : Bytes}
    {text : Text} (hlink : WorkTree.isSymlink tree path = false)
    (hfile : WorkTree.isFile tree path = true)
    (hcommitted : c.reference tree path = .ok (some committed))
    (hold : WorkTree.read tree path = .ok old) (htext : Utf8.decode? old = some text) :
    c.examine tree path = .ok (.texts (Utf8.decodeLossy committed) text) := by
  rw [examine, if_neg (by simp [hlink]), if_neg (by simp [hfile]), hcommitted]
  dsimp only
  rw [hold]
  dsimp only
  rw [htext]

/-- The working text of a file with its noise taken back, under the profile of its path. -/
def cleaned (c : Cleaner σ) (path : Path) (reference working : Text) : Denoised :=
  denoise (c.profileOf path) reference working

/-- What can become of a file: the tree afterwards and the answer, with what is known of
the file in each case. -/
inductive Step (c : Cleaner σ) (tree : σ) (path : Path) :
    σ × Except CleanError FileOutcome → Prop
  /-- The file cannot be read. -/
  | failed (e : FileError) : Step c tree path (tree, .error (.file e))
  /-- The file is none that is cleaned. -/
  | skipped (reason : SkipReason) : Step c tree path (tree, .ok (.skipped path reason))
  /-- The cleaned text is the one that is there. -/
  | same {reference working : Text}
      (texts : c.examine tree path = .ok (.texts reference working))
      (content : (c.cleaned path reference working).content = working) :
      Step c tree path
        (tree, .ok (.processed path false (c.cleaned path reference working).reversions))
  /-- The cleaned text is another, and a dry run only says so. -/
  | announced {reference working : Text}
      (texts : c.examine tree path = .ok (.texts reference working))
      (content : (c.cleaned path reference working).content ≠ working) (dry : c.dryRun = true) :
      Step c tree path
        (tree, .ok (.processed path true (c.cleaned path reference working).reversions))
  /-- The cleaned text is another and has been written. -/
  | written {reference working : Text} {after : σ}
      (texts : c.examine tree path = .ok (.texts reference working))
      (content : (c.cleaned path reference working).content ≠ working) (dry : c.dryRun = false)
      (write : WorkTree.write tree path (c.cleaned path reference working).content =
        (after, .ok ())) :
      Step c tree path
        (after, .ok (.processed path true (c.cleaned path reference working).reversions))
  /-- The cleaned text is another and could not be written. -/
  | unwritten {reference working : Text} {after : σ} {e : FileError}
      (texts : c.examine tree path = .ok (.texts reference working))
      (content : (c.cleaned path reference working).content ≠ working) (dry : c.dryRun = false)
      (write : WorkTree.write tree path (c.cleaned path reference working).content =
        (after, .error e)) :
      Step c tree path (after, .error (.writeFailure path e))

/-- The cleaning of a file is one of these steps. -/
theorem step_cleanFile (c : Cleaner σ) (tree : σ) (path : Path) :
    c.Step tree path (c.cleanFile tree path) := by
  unfold cleanFile
  split
  · exact .failed _
  · exact .skipped _
  · next reference working texts =>
    show c.Step tree path
      (if (c.cleaned path reference working).reversions = 0 then _
        else if (c.cleaned path reference working).content = working then _ else _)
    by_cases hzero : (c.cleaned path reference working).reversions = 0
    · -- Nothing was counted, so nothing is different: the text need not be compared.
      rw [if_pos hzero]
      have hstep := Step.same texts (content_of_reversions_eq_zero hzero)
      rwa [hzero] at hstep
    · rw [if_neg hzero]
      by_cases hsame : (c.cleaned path reference working).content = working
      · rw [if_pos hsame]
        exact .same texts hsame
      · rw [if_neg hsame]
        by_cases hdry : c.dryRun = true
        · rw [if_pos hdry]
          exact .announced texts hsame hdry
        · rw [if_neg hdry]
          rw [Bool.not_eq_true] at hdry
          split
          · next after hwrite => exact .written texts hsame hdry hwrite
          · next after e hwrite => exact .unwritten texts hsame hdry hwrite

/-! ### Whole runs -/

/-- What the cleaning of every single file keeps, a run keeps. -/
theorem cleanAll_induction {c : Cleaner σ} {motive : σ → Prop}
    (step : ∀ tree path, motive tree → motive (c.cleanFile tree path).1)
    {tree : σ} (h : motive tree) (paths : List Path) : motive (c.cleanAll tree paths).1 := by
  -- A directory is a run of its own inside the run over the arguments.
  have hfiles : ∀ (files : List Path) (run : σ × Report),
      motive run.1 → motive (files.foldl c.recordFile run).1 := by
    intro files
    induction files with
    | nil => exact fun run hrun => hrun
    | cons file files ih => exact fun run hrun => ih _ (step run.1 file hrun)
  have hargument : ∀ (run : σ × Report) (path : Path),
      motive run.1 → motive (c.cleanArgument run path).1 := by
    intro run path hrun
    unfold cleanArgument
    split
    · split
      · exact hfiles _ run hrun
      · exact hrun
    · exact step run.1 path hrun
  have hall : ∀ (paths : List Path) (run : σ × Report),
      motive run.1 → motive (paths.foldl c.cleanArgument run).1 := by
    intro paths
    induction paths with
    | nil => exact fun run hrun => hrun
    | cons path paths ih => exact fun run hrun => ih _ (hargument run path hrun)
  exact hall paths (tree, ⟨c.dryRun, [], []⟩) h

end Cleaner

/-! ### Trees in memory -/

namespace MemoryTree

/-- Replacing the content at a path is seen at that path only, and only if it is there. -/
theorem lookup_replace (files : List (Path × Bytes)) (path q : Path) (content : Bytes) :
    (files.map fun f => if f.1 = path then (path, content) else f).lookup q =
      if q = path then (files.lookup q).map fun _ => content else files.lookup q := by
  induction files with
  | nil => simp
  | cons f files ih =>
      obtain ⟨p, old⟩ := f
      by_cases hp : p = path
      · subst hp
        by_cases hq : q = p
        · subst hq
          simp
        · have hbeq : (q == p) = false := by simpa using hq
          rw [List.map_cons, if_pos rfl, List.lookup_cons, List.lookup_cons, hbeq, ih]
      · by_cases hq : q = p
        · subst hq
          rw [List.map_cons, if_neg hp, if_neg hp]
          simp
        · have hbeq : (q == p) = false := by simpa using hq
          rw [List.map_cons, if_neg hp, List.lookup_cons, List.lookup_cons, hbeq, ih]

theorem get?_put (t : MemoryTree) (path q : Path) (content : Bytes) :
    (t.put path content).get? q = if q = path then some content else t.get? q := by
  unfold put get?
  by_cases hthere : (t.files.lookup path).isSome = true
  · rw [if_pos hthere]
    show (t.files.map _).lookup q = _
    rw [lookup_replace]
    by_cases hq : q = path
    · subst hq
      obtain ⟨old, hold⟩ := Option.isSome_iff_exists.1 hthere
      rw [if_pos rfl, if_pos rfl, hold, Option.map_some]
    · rw [if_neg hq, if_neg hq]
  · rw [if_neg hthere]
    show (t.files ++ [(path, content)]).lookup q = _
    rw [List.lookup_append]
    by_cases hq : q = path
    · subst hq
      rw [Bool.not_eq_true, Option.isSome_eq_false_iff, Option.isNone_iff_eq_none] at hthere
      simp [hthere]
    · have hbeq : (q == path) = false := by simpa using hq
      rw [if_neg hq, List.lookup_cons, hbeq]
      simp

theorem write_eq_ok {t after : MemoryTree} {path : Path} {content : Text}
    (h : WorkTree.write t path content = (after, .ok ())) :
    t.writeFaults.lookup path = none ∧ after = t.put path (Utf8.encode content) := by
  have h : t.write path content = (after, .ok ()) := h
  unfold write at h
  split at h
  · exact absurd h (by simp)
  · exact absurd h (by simp)
  · next hfault => exact ⟨hfault, (Prod.mk.inj h).1.symm⟩

/-- A write that fails changes nothing. -/
theorem write_eq_error {t after : MemoryTree} {path : Path} {content : Text} {e : FileError}
    (h : WorkTree.write t path content = (after, .error e)) : after = t := by
  have h : t.write path content = (after, .error e) := h
  unfold write at h
  split at h
  · exact (Prod.mk.inj h).1.symm
  · exact (Prod.mk.inj h).1.symm
  · exact absurd h (by simp)

theorem get?_of_read {t : MemoryTree} {path : Path} {bytes : Bytes}
    (h : WorkTree.read t path = .ok bytes) : t.get? path = some bytes := by
  have h : t.read path = .ok bytes := h
  unfold read at h
  split at h
  · exact absurd h (by simp)
  · split at h
    · next content hcontent =>
      cases h
      exact hcontent
    · exact absurd h (by simp)

end MemoryTree

namespace Cleaner

/-- A cleaner over trees in memory, with reference versions that no tree changes. -/
def inMemory (reference : Path → Except RepositoryError (Option Bytes)) (registry : Registry)
    (dryRun : Bool) (excludeDirs : List Text) : Cleaner MemoryTree where
  reference := fun _ => reference
  registry := registry
  dryRun := dryRun
  excludeDirs := excludeDirs

/-- A step leaves a tree in memory as it is, or writes the cleaned text of a file that is
there, and nothing else. -/
theorem cleanFile_tree (c : Cleaner MemoryTree) (tree : MemoryTree) (path : Path) :
    (c.cleanFile tree path).1 = tree ∨
    ∃ reference working, c.examine tree path = .ok (.texts reference working) ∧
      tree.writeFaults.lookup path = none ∧
      (c.cleanFile tree path).1 =
        tree.put path (Utf8.encode (c.cleaned path reference working).content) := by
  have hstep := c.step_cleanFile tree path
  generalize c.cleanFile tree path = result at hstep ⊢
  cases hstep with
  | failed | skipped | same | announced => exact Or.inl rfl
  | @written reference working after texts _ _ write =>
      obtain ⟨hfault, rfl⟩ := MemoryTree.write_eq_ok write
      exact Or.inr ⟨reference, working, texts, hfault, rfl⟩
  | unwritten _ _ _ write => exact Or.inl (MemoryTree.write_eq_error write)

theorem get?_cleanFile_of_ne (c : Cleaner MemoryTree) (tree : MemoryTree) {path q : Path}
    (hq : q ≠ path) : (c.cleanFile tree path).1.get? q = tree.get? q := by
  rcases c.cleanFile_tree tree path with hsame | ⟨reference, working, -, -, hput⟩
  · rw [hsame]
  · rw [hput, MemoryTree.get?_put, if_neg hq]

theorem isSome_get?_cleanFile (c : Cleaner MemoryTree) (tree : MemoryTree) (path q : Path) :
    ((c.cleanFile tree path).1.get? q).isSome = (tree.get? q).isSome := by
  rcases c.cleanFile_tree tree path with hsame | ⟨reference, working, htexts, -, hput⟩
  · rw [hsame]
  · have hthere : (tree.get? path).isSome = true := (examine_eq_texts htexts).2.1
    rw [hput, MemoryTree.get?_put]
    by_cases hq : q = path
    · rw [if_pos hq, hq, hthere]
      rfl
    · rw [if_neg hq]

/-- What an answer about a file says of the tree before and after. An error and a skipped
file mean that nothing has changed. A processed file has a reference version and a text;
it is called rewritten exactly if its cleaned text is another, and unless the run is a
dry one its bytes are those of the cleaned text. -/
def AnswerFits (c : Cleaner MemoryTree) (tree : MemoryTree) (path : Path) (after : MemoryTree) :
    Except CleanError FileOutcome → Prop
  | .error _ => after = tree
  | .ok (.skipped p _) => p = path ∧ after = tree
  | .ok (.processed p rewritten _) =>
      p = path ∧ (c.dryRun = true → after = tree) ∧
      ∃ committed old text, c.reference tree path = .ok (some committed) ∧
        tree.get? path = some old ∧ Utf8.decode? old = some text ∧
        (rewritten = true ↔
          (denoise (c.profileOf path) (Utf8.decodeLossy committed) text).content ≠ text) ∧
        (c.dryRun = false → after.get? path = some (Utf8.encode
          (denoise (c.profileOf path) (Utf8.decodeLossy committed) text).content))

theorem answerFits_cleanFile (c : Cleaner MemoryTree) (tree : MemoryTree) (path : Path) :
    c.AnswerFits tree path (c.cleanFile tree path).1 (c.cleanFile tree path).2 := by
  have hstep := c.step_cleanFile tree path
  generalize c.cleanFile tree path = result at hstep ⊢
  cases hstep with
  | failed e => rfl
  | skipped reason => exact ⟨rfl, rfl⟩
  | @same reference working texts content =>
      obtain ⟨-, -, committed, old, hcommitted, hread, hdecode, rfl⟩ := examine_eq_texts texts
      have hold := MemoryTree.get?_of_read hread
      refine ⟨rfl, fun _ => rfl, committed, old, working, hcommitted, hold, hdecode, ?_, ?_⟩
      · exact ⟨fun h => absurd h (by simp), fun h => absurd content h⟩
      · -- The text is the old one, and the old bytes are the only ones it has.
        intro _
        rw [show (denoise _ _ _).content = working from content, Utf8.encode_of_decode? hdecode]
        exact hold
  | @announced reference working texts content dry =>
      obtain ⟨-, -, committed, old, hcommitted, hread, hdecode, rfl⟩ := examine_eq_texts texts
      refine ⟨rfl, fun _ => rfl, committed, old, working, hcommitted,
        MemoryTree.get?_of_read hread, hdecode, ⟨fun _ => content, fun _ => rfl⟩, ?_⟩
      intro hdry
      rw [dry] at hdry
      exact absurd hdry (by simp)
  | @written reference working after texts content dry write =>
      obtain ⟨-, -, committed, old, hcommitted, hread, hdecode, rfl⟩ := examine_eq_texts texts
      obtain ⟨-, rfl⟩ := MemoryTree.write_eq_ok write
      refine ⟨rfl, ?_, committed, old, working, hcommitted, MemoryTree.get?_of_read hread,
        hdecode, ⟨fun _ => content, fun _ => rfl⟩, ?_⟩
      · intro hdry
        rw [dry] at hdry
        exact absurd hdry (by simp)
      · intro _
        rw [MemoryTree.get?_put, if_pos rfl]
        rfl
  | unwritten _ _ _ write => exact MemoryTree.write_eq_error write

/-! ### Protected files -/

/-- A file that no run changes: a link, a file without a reference version, one that is
not text, or one that cannot be written. -/
def Protected (reference : Path → Except RepositoryError (Option Bytes)) (tree : MemoryTree)
    (q : Path) : Prop :=
  q ∈ tree.symlinks ∨ (∀ committed, reference q ≠ .ok (some committed)) ∨
    (∃ bytes, tree.get? q = some bytes ∧ Utf8.decode? bytes = none) ∨
    (tree.writeFaults.lookup q).isSome = true

/-- The cleaning of a file writes no protected one. -/
theorem not_protected_of_texts {c : Cleaner MemoryTree} {tree : MemoryTree} {path : Path}
    {reference working : Text} (htexts : c.examine tree path = .ok (.texts reference working))
    (hfault : tree.writeFaults.lookup path = none) : ¬ Protected (c.reference tree) tree path := by
  obtain ⟨hlink, -, committed, old, hcommitted, hread, hdecode, -⟩ := examine_eq_texts htexts
  rintro (hsymlink | huntracked | ⟨bytes, hbytes, hundecodable⟩ | hfails)
  · have hlink : tree.symlinks.contains path = false := hlink
    simp [hsymlink] at hlink
  · exact huntracked committed hcommitted
  · rw [MemoryTree.get?_of_read hread, Option.some.injEq] at hbytes
    rw [← hbytes, hdecode] at hundecodable
    exact absurd hundecodable (by simp)
  · rw [hfault] at hfails
    exact absurd hfails (by simp)

/-- A step changes no protected file, and takes no file's protection away. -/
theorem get?_cleanFile_of_protected
    {c : Cleaner MemoryTree} {reference : Path → Except RepositoryError (Option Bytes)}
    (hreference : ∀ tree, c.reference tree = reference) {tree : MemoryTree} {q : Path}
    (h : Protected reference tree q) (path : Path) :
    (c.cleanFile tree path).1.get? q = tree.get? q ∧
      Protected reference (c.cleanFile tree path).1 q := by
  rcases c.cleanFile_tree tree path with hsame | ⟨_, _, htexts, hfault, hput⟩
  · rw [hsame]
    exact ⟨rfl, h⟩
  · -- The one file that is written is not protected, so it is another.
    have hq : q ≠ path := by
      rintro rfl
      exact not_protected_of_texts htexts hfault (hreference tree ▸ h)
    have hget := c.get?_cleanFile_of_ne tree hq
    refine ⟨hget, ?_⟩
    unfold Protected
    rw [hget, hput]
    exact h

/-- A call of a cleaner. -/
inductive Call
  | file (path : Path)
  | paths (paths : List Path)

/-- The tree after a call. -/
def call {σ : Type} [WorkTree σ] (c : Cleaner σ) (tree : σ) : Call → σ
  | .file path => (c.cleanFile tree path).1
  | .paths paths => (c.cleanAll tree paths).1

/-- The tree after some calls, one after the other. -/
def calls {σ : Type} [WorkTree σ] (c : Cleaner σ) (tree : σ) (calls : List Call) : σ :=
  calls.foldl c.call tree

theorem calls_induction {σ : Type} [WorkTree σ] {c : Cleaner σ} {motive : σ → Prop}
    (step : ∀ tree path, motive tree → motive (c.cleanFile tree path).1)
    {tree : σ} (h : motive tree) (calls : List Call) : motive (c.calls tree calls) := by
  induction calls generalizing tree with
  | nil => exact h
  | cons call calls ih =>
      apply ih
      cases call with
      | file path => exact step tree path h
      | paths paths => exact cleanAll_induction step h paths

theorem get?_calls_of_protected
    {c : Cleaner MemoryTree} {reference : Path → Except RepositoryError (Option Bytes)}
    (hreference : ∀ tree, c.reference tree = reference) {tree : MemoryTree} {q : Path}
    (h : Protected reference tree q) (calls : List Call) :
    (c.calls tree calls).get? q = tree.get? q := by
  have hstep : ∀ (after : MemoryTree) (path : Path),
      after.get? q = tree.get? q ∧ Protected reference after q →
      (c.cleanFile after path).1.get? q = tree.get? q ∧
        Protected reference (c.cleanFile after path).1 q := by
    rintro after path ⟨hget, hprotected⟩
    obtain ⟨hget', hprotected'⟩ := get?_cleanFile_of_protected hreference hprotected path
    exact ⟨hget'.trans hget, hprotected'⟩
  exact (calls_induction hstep ⟨rfl, h⟩ calls).1

/-- **The frame of a run.** Cleaning a file changes no other file, makes none and takes
none away, and its answer says exactly what has become of the file itself. So over any
calls, files and directories mixed, a protected file keeps its bytes. -/
theorem cleanFile_frame (reference : Path → Except RepositoryError (Option Bytes))
    (registry : Registry) (dryRun : Bool) (excludeDirs : List Text) (tree : MemoryTree) :
    (∀ path,
      (∀ q, q ≠ path →
        ((inMemory reference registry dryRun excludeDirs).cleanFile tree path).1.get? q =
          tree.get? q) ∧
      (∀ q,
        (((inMemory reference registry dryRun excludeDirs).cleanFile tree path).1.get? q).isSome =
          (tree.get? q).isSome) ∧
      (inMemory reference registry dryRun excludeDirs).AnswerFits tree path
        ((inMemory reference registry dryRun excludeDirs).cleanFile tree path).1
        ((inMemory reference registry dryRun excludeDirs).cleanFile tree path).2) ∧
    ∀ calls q, Protected reference tree q →
      ((inMemory reference registry dryRun excludeDirs).calls tree calls).get? q =
        tree.get? q := by
  refine ⟨fun path => ⟨fun q hq => ?_, fun q => ?_, ?_⟩, fun calls q hq => ?_⟩
  · exact get?_cleanFile_of_ne _ tree hq
  · exact isSome_get?_cleanFile _ tree path q
  · exact answerFits_cleanFile _ tree path
  · exact get?_calls_of_protected (fun _ => rfl) hq calls

/-- A link keeps what it holds although its text is noise against its reference version,
also when its directory is cleaned. -/
theorem cleanFile_frame_of_link :
    Protected (fun _ => .ok (some (Utf8.encode "x\n".toList)))
      { files := [(⟨"d/l".toList⟩, Utf8.encode "x \n".toList)]
        symlinks := [⟨"d/l".toList⟩], dirs := [(⟨"d".toList⟩, .ok [⟨"d/l".toList⟩])] }
      ⟨"d/l".toList⟩ ∧
    ((inMemory (fun _ => .ok (some (Utf8.encode "x\n".toList))) {} false []).calls
      { files := [(⟨"d/l".toList⟩, Utf8.encode "x \n".toList)]
        symlinks := [⟨"d/l".toList⟩], dirs := [(⟨"d".toList⟩, .ok [⟨"d/l".toList⟩])] }
      [.file ⟨"d/l".toList⟩, .paths [⟨"d".toList⟩]]).get? ⟨"d/l".toList⟩ =
      some (Utf8.encode "x \n".toList) := by
  have hlink : Protected (fun _ => .ok (some (Utf8.encode "x\n".toList)))
      { files := [(⟨"d/l".toList⟩, Utf8.encode "x \n".toList)]
        symlinks := [⟨"d/l".toList⟩], dirs := [(⟨"d".toList⟩, .ok [⟨"d/l".toList⟩])] }
      ⟨"d/l".toList⟩ := Or.inl List.mem_cons_self
  exact ⟨hlink, (cleanFile_frame (fun _ => .ok (some (Utf8.encode "x\n".toList))) {} false [] _).2
    [.file ⟨"d/l".toList⟩, .paths [⟨"d".toList⟩]] ⟨"d/l".toList⟩ hlink⟩

end Cleaner

end CleanDiff
