import CleanDiff.CommandLine.Reader
import CleanDiff.Proofs.Delimiter

/-!
# Command lines that can be written

Everything that a run can be asked for can be written on a command line: each option in one
argument, a value behind its `=`, and the paths behind `--`. **Such a command line is read
back as the options it was written for, whatever the values are and in whatever order the
options stand** (`parse_written`). A value may look like an option, hold a `=` or be empty;
only the path of a configuration file and the paths to clean may not be empty.

One argument changes the options that were read so far and leaves nothing pending
(`readAll_written`). What is left to show is that no option is refused as repeated, and this
is counted: what the options hold and what the arguments still bring are together what was
to be written (`Completes`), so an option that is still to come has not been read yet.
-/

namespace CleanDiff

/-- An argument in front of the paths. -/
inductive Setting
  | verbose (short : Bool)
  | dryRun
  | json
  | revision (value : Text)
  | exclude (value : Text)
  | config (value : Text)
  deriving DecidableEq, Repr

namespace Setting

/-- The argument as it is written. -/
def written : Setting → Text
  | .verbose true => ['-', 'v']
  | .verbose false => "--verbose".toList
  | .dryRun => "--dry-run".toList
  | .json => "--json".toList
  | .revision value => "--rev=".toList ++ value
  | .exclude value => "--exclude=".toList ++ value
  | .config value => "--config=".toList ++ value

def isVerbose : Setting → Bool
  | .verbose _ => true
  | _ => false

def revision? : Setting → Option Text
  | .revision value => some value
  | _ => none

def exclude? : Setting → Option Text
  | .exclude value => some value
  | _ => none

def config? : Setting → Option Text
  | .config value => some value
  | _ => none

end Setting

/-- The settings write down the options: each option that is set stands there once, and the
excluded names in their order. -/
structure Options.WrittenBy (o : Options) (settings : List Setting) : Prop where
  verbose : settings.countP Setting.isVerbose = o.verbose.toNat
  dryRun : settings.count .dryRun = o.dryRun.toNat
  json : settings.count .json = o.json.toNat
  revision : settings.filterMap Setting.revision? = o.revision.toList
  exclude : settings.filterMap Setting.exclude? = o.exclude
  config : settings.filterMap Setting.config? = o.config.toList

/-! ### Reading one argument -/

/-- Take a setting in. -/
def Options.apply (o : Options) : Setting → Except UsageError Options
  | .verbose _ => o.setFlag .verbose
  | .dryRun => o.setFlag .dryRun
  | .json => o.setFlag .json
  | .revision value => o.take .revision [value]
  | .exclude value => o.take .exclude [value]
  | .config value => o.take .config [value]

namespace Reading

theorem splitValue_append {name : Text} (h : '=' ∉ name) (value : Text) :
    splitValue (name ++ '=' :: value) = (name, some value) := by
  have hpass := takeWhile_ne_append h ('=' :: value)
  rw [splitValue, hpass.1, hpass.2]
  simp

theorem splitValue_of_not_mem {name : Text} (h : '=' ∉ name) : splitValue name = (name, none) := by
  have hpass := takeWhile_ne_append h []
  rw [List.append_nil] at hpass
  rw [splitValue, hpass.2]
  rfl

variable (o : Options) (rest : List Text)

/-- With nothing pending, a set option is all that changes. -/
theorem setFlag_bind (f : Flag) :
    ((setFlag { options := o } f).bind fun r => r.readAll rest) =
      (o.setFlag f).bind fun o => readAll { options := o } rest := by
  cases hflag : o.setFlag f <;> simp [setFlag, flush, hflag, bind, Except.bind, pure, Except.pure]

theorem readAll_long {t : Text} (h : t ≠ []) :
    readAll { options := o } (('-' :: '-' :: t) :: rest) =
      (readLong { options := o } t).bind fun r => r.readAll rest := by
  rw [readAll]
  · rfl
  · simpa using h

/-- A long option without a value is set. -/
theorem readAll_flag (f : Flag) (name : Text) (h : '=' ∉ name)
    (hname : LongOption.ofName? name = some (.flag f)) (hne : name ≠ []) :
    readAll { options := o } (('-' :: '-' :: name) :: rest) =
      (o.setFlag f).bind fun o => readAll { options := o } rest := by
  rw [readAll_long o rest hne, readLong, splitValue_of_not_mem h]
  simp only [hname, setFlag_bind]

/-- A long option takes the value behind its `=`, whatever it is. -/
theorem readAll_value (target : Valued) (name : Text) (h : '=' ∉ name)
    (hname : LongOption.ofName? name = some (.valued target)) (value : Text) :
    readAll { options := o } (('-' :: '-' :: (name ++ '=' :: value)) :: rest) =
      (o.take target [value]).bind fun o => readAll { options := o } rest := by
  rw [readAll_long o rest (by simp), readLong, splitValue_append h]
  simp only [hname]
  cases htake : o.take target [value] <;> simp [flush, htake, bind, Except.bind, pure, Except.pure]

theorem readAll_letter :
    readAll { options := o } (['-', 'v'] :: rest) =
      (o.setFlag .verbose).bind fun o => readAll { options := o } rest := by
  have hletters : setLetters { options := o } ['v'] = setFlag { options := o } .verbose := by
    rw [setLetters]
    simp only [Flag.ofLetter?]
    cases setFlag { options := o } .verbose <;> simp [setLetters, bind, Except.bind]
  rw [← setFlag_bind, ← hletters, readAll]
  · rfl
  · simp
  · simp

/-- A written setting is taken in, and nothing is pending behind it. -/
theorem readAll_written (s : Setting) :
    readAll { options := o } (s.written :: rest) =
      (o.apply s).bind fun o => readAll { options := o } rest := by
  cases s with
  | verbose short =>
      cases short with
      | true => exact readAll_letter o rest
      | false => exact readAll_flag o rest .verbose "verbose".toList (by decide) rfl (by decide)
  | dryRun => exact readAll_flag o rest .dryRun "dry-run".toList (by decide) rfl (by decide)
  | json => exact readAll_flag o rest .json "json".toList (by decide) rfl (by decide)
  | revision value =>
      exact readAll_value o rest .revision "rev".toList (by decide) rfl value
  | exclude value =>
      exact readAll_value o rest .exclude "exclude".toList (by decide) rfl value
  | config value =>
      exact readAll_value o rest .config "config".toList (by decide) rfl value

/-! ### Reading the whole line -/

theorem readAll_settings (settings : List Setting) :
    readAll { options := o } (settings.map Setting.written ++ rest) =
      (settings.foldlM Options.apply o).bind fun o => readAll { options := o } rest := by
  induction settings generalizing o with
  | nil => rfl
  | cons s settings ih =>
      rw [List.map_cons, List.cons_append, readAll_written, List.foldlM_cons]
      cases happly : o.apply s with
      | error e => rfl
      | ok o' => exact ih o'

/-- Paths wait together until the end of the line. -/
theorem readPaths_pending (waiting paths : List Text) :
    readPaths { options := o, pending := some ⟨.paths, waiting⟩ } paths =
      .ok { options := o, pending := some ⟨.paths, waiting ++ paths⟩ } := by
  induction paths generalizing waiting with
  | nil =>
      rw [List.append_nil]
      rfl
  | cons p paths ih =>
      have hrest := ih (waiting ++ [p])
      rw [List.append_assoc, List.singleton_append] at hrest
      exact hrest

theorem readAll_paths {paths : List Text} (hne : paths ≠ []) :
    readAll { options := o } (['-', '-'] :: paths) =
      .ok { options := o, pending := some ⟨.paths, paths⟩ } := by
  obtain ⟨p, paths, rfl⟩ := List.exists_cons_of_ne_nil hne
  rw [readAll]
  exact readPaths_pending o [p] paths

end Reading

/-! ### What is still to come -/

/-- What the options hold and what the settings still bring are together the options that
were written down. -/
structure Options.Completes (written : Options) (o : Options) (settings : List Setting) :
    Prop where
  verbose : o.verbose.toNat + settings.countP Setting.isVerbose = written.verbose.toNat
  dryRun : o.dryRun.toNat + settings.count .dryRun = written.dryRun.toNat
  json : o.json.toNat + settings.count .json = written.json.toNat
  revision : o.revision.toList ++ settings.filterMap Setting.revision? = written.revision.toList
  exclude : o.exclude ++ settings.filterMap Setting.exclude? = written.exclude
  config : o.config.toList ++ settings.filterMap Setting.config? = written.config.toList
  paths : o.paths = []

namespace Options

variable {written o : Options} {settings : List Setting}

/-- A flag that is still to come is not set yet. -/
theorem toNat_add_succ {b w : Bool} {n : Nat} (h : b.toNat + (n + 1) = w.toNat) :
    b = false ∧ true.toNat + n = w.toNat := by
  have hle := w.toNat_le
  cases b with
  | true =>
      rw [Bool.toNat_true] at h
      omega
  | false =>
      rw [Bool.toNat_false] at h
      exact ⟨rfl, by rw [Bool.toNat_true]; omega⟩

/-- A value that is still to come has not been read yet, and is the only one. -/
theorem toList_append_cons {a w : Option Text} (value : Text) {rest : List Text}
    (h : a.toList ++ value :: rest = w.toList) :
    a = none ∧ w = some value ∧ (some value).toList ++ rest = w.toList := by
  cases a <;> cases w <;> simp_all

/-- A setting is taken in without an objection, and then the rest is still to come. -/
theorem Completes.step {s : Setting} (hconfig : written.config ≠ some [])
    (h : written.Completes o (s :: settings)) :
    ∃ o', o.apply s = .ok o' ∧ written.Completes o' settings := by
  obtain ⟨hverbose, hdryRun, hjson, hrevision, hexclude, hvalue, hpaths⟩ := h
  cases s with
  | verbose short =>
      rw [List.countP_cons_of_pos rfl] at hverbose
      obtain ⟨hfree, hset⟩ := toNat_add_succ hverbose
      refine ⟨{ o with verbose := true }, by simp [apply, setFlag, hfree], ?_⟩
      exact ⟨hset, by simpa using hdryRun, by simpa using hjson, hrevision, hexclude, hvalue,
        hpaths⟩
  | dryRun =>
      rw [List.count_cons_self] at hdryRun
      obtain ⟨hfree, hset⟩ := toNat_add_succ hdryRun
      refine ⟨{ o with dryRun := true }, by simp [apply, setFlag, hfree], ?_⟩
      exact ⟨hverbose, hset, by simpa using hjson, hrevision, hexclude, hvalue, hpaths⟩
  | json =>
      rw [List.count_cons_self] at hjson
      obtain ⟨hfree, hset⟩ := toNat_add_succ hjson
      refine ⟨{ o with json := true }, by simp [apply, setFlag, hfree], ?_⟩
      exact ⟨hverbose, by simpa using hdryRun, hset, hrevision, hexclude, hvalue, hpaths⟩
  | revision value =>
      obtain ⟨hfree, -, hset⟩ := toList_append_cons value hrevision
      refine ⟨{ o with revision := some value }, by simp [apply, take, hfree], ?_⟩
      exact ⟨hverbose, by simpa using hdryRun, by simpa using hjson, hset, hexclude, hvalue, hpaths⟩
  | exclude value =>
      have hset : (o.exclude ++ [value]) ++ settings.filterMap Setting.exclude? =
          written.exclude := by
        rw [List.append_assoc]
        exact hexclude
      refine ⟨{ o with exclude := o.exclude ++ [value] }, rfl, ?_⟩
      exact ⟨hverbose, by simpa using hdryRun, by simpa using hjson, hrevision, hset, hvalue,
        hpaths⟩
  | config value =>
      obtain ⟨hfree, hwritten, hset⟩ := toList_append_cons value hvalue
      have hne : value ≠ [] := by
        rintro rfl
        exact hconfig hwritten
      refine ⟨{ o with config := some value }, by simp [apply, take, hfree, hne], ?_⟩
      exact ⟨hverbose, by simpa using hdryRun, by simpa using hjson, hrevision, hexclude, hset,
        hpaths⟩

/-- When nothing is left to come, the options are those that were written down. -/
theorem Completes.eq (h : written.Completes o []) : o = { written with paths := [] } := by
  have hbool : ∀ {b w : Bool}, b.toNat = w.toNat → b = w := by decide
  have hlist : ∀ {a w : Option Text}, a.toList = w.toList → a = w := by
    intro a w h
    cases a <;> cases w <;> simp_all
  obtain ⟨hverbose, hdryRun, hjson, hrevision, hexclude, hconfig, hpaths⟩ := h
  cases o
  simp only [List.countP_nil, List.count_nil, List.filterMap_nil, Nat.add_zero, List.append_nil]
    at hverbose hdryRun hjson hrevision hexclude hconfig hpaths
  simp only [mk.injEq]
  exact ⟨hbool hverbose, hbool hdryRun, hbool hjson, hlist hrevision, hexclude, hlist hconfig,
    hpaths⟩

theorem Completes.foldlM_apply (hconfig : written.config ≠ some [])
    (h : written.Completes o settings) :
    settings.foldlM apply o = .ok { written with paths := [] } := by
  induction settings generalizing o with
  | nil => rw [List.foldlM_nil, h.eq]; rfl
  | cons s settings ih =>
      obtain ⟨o', happly, hrest⟩ := h.step hconfig
      rw [List.foldlM_cons, happly]
      exact ih hrest

theorem WrittenBy.completes (h : o.WrittenBy settings) : o.Completes {} settings where
  verbose := by simpa using h.verbose
  dryRun := by simpa using h.dryRun
  json := by simpa using h.json
  revision := h.revision
  exclude := h.exclude
  config := h.config
  paths := rfl

/-- Settings for the options, in the order in which the options are listed. -/
def listed (o : Options) : List Setting :=
  List.replicate o.verbose.toNat (.verbose false) ++ (List.replicate o.dryRun.toNat .dryRun ++
    (List.replicate o.json.toNat .json ++ (o.revision.toList.map .revision ++
      (o.exclude.map .exclude ++ o.config.toList.map .config))))

theorem writtenBy_listed (o : Options) : o.WrittenBy o.listed where
  verbose := by simp [listed, List.countP_replicate, Setting.isVerbose, Function.comp_def]
  dryRun := by simp [listed, List.count_replicate, List.count_eq_zero]
  json := by simp [listed, List.count_replicate, List.count_eq_zero]
  revision := by simp [listed, List.filterMap_replicate, Setting.revision?, Function.comp_def]
  exclude := by simp [listed, List.filterMap_replicate, Setting.exclude?, Function.comp_def]
  config := by simp [listed, List.filterMap_replicate, Setting.config?, Function.comp_def]

theorem take_paths {paths : List Text} (hne : paths ≠ []) (hnames : [] ∉ paths) :
    o.take .paths paths = .ok { o with paths := o.paths ++ paths } := by
  obtain ⟨p, paths, rfl⟩ := List.exists_cons_of_ne_nil hne
  simp [take, hnames]

/-- **Every command line that can be meant can be written, and is read back.** However the
options are set and whatever their values are, there are settings that write them down; and
all such settings, with the paths behind `--`, are read as these options, the revision being
that of the environment where the options name none. -/
theorem parse_written (o : Options) (hpaths : o.paths ≠ []) (hnames : [] ∉ o.paths)
    (hconfig : o.config ≠ some []) (environment : Option Text) :
    (∃ settings, o.WrittenBy settings) ∧
      ∀ settings, o.WrittenBy settings →
        parse (settings.map Setting.written ++ ['-', '-'] :: o.paths) environment =
          .ok { o with revision := o.revision <|> environment } := by
  refine ⟨⟨o.listed, o.writtenBy_listed⟩, fun settings hwritten => ?_⟩
  have hread : Reading.readAll {} (settings.map Setting.written ++ ['-', '-'] :: o.paths) =
      .ok { options := { o with paths := [] }, pending := some ⟨.paths, o.paths⟩ } := by
    rw [Reading.readAll_settings, hwritten.completes.foldlM_apply hconfig]
    exact Reading.readAll_paths _ hpaths
  have hflush : Reading.flush
      { options := { o with paths := [] }, pending := some ⟨.paths, o.paths⟩ } = .ok o :=
    take_paths hpaths hnames
  simp [parse, hread, hflush, hpaths, bind, Except.bind, pure, Except.pure]

/-- Values that look like options, hold a `=` or are empty, and an option among the paths. -/
def misleading : Options where
  dryRun := true
  revision := some "--json".toList
  exclude := [[], "a=b".toList]
  config := some ['-']
  paths := ["-v".toList, "--".toList]

theorem parse_written_of_misleading :
    misleading.WrittenBy [.exclude [], .config ['-'], .dryRun, .revision "--json".toList,
      .exclude "a=b".toList] ∧
    parse ["--exclude=".toList, "--config=-".toList, "--dry-run".toList, "--rev=--json".toList,
      "--exclude=a=b".toList, "--".toList, "-v".toList, "--".toList] (some "main".toList) =
        .ok misleading := by
  have hwritten : misleading.WrittenBy [.exclude [], .config ['-'], .dryRun,
      .revision "--json".toList, .exclude "a=b".toList] := by
    constructor <;> decide
  have hparse := parse_written misleading (by decide) (by decide) (by decide) (some "main".toList)
  exact ⟨hwritten, hparse.2 _ hwritten⟩

end Options

end CleanDiff
