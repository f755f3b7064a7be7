import CleanDiff.CommandLine.Basic

/-!
# Reading a command line

Arguments are read from left to right. Options and paths may be mixed until `--`,
behind which everything is a path. An option that takes a value has it behind
`=` in the same argument or in the next one; a next argument that begins with
`-`, a single `-` apart, is never taken for a value.

Values that stand in arguments of their own are *pending* until the next
argument that is understood, or the end: only then are they taken in. So an
argument that is not understood is reported before a fault of the values in
front of it.
-/

namespace CleanDiff

/-- What takes values on a command line. -/
inductive Valued
  | revision
  | exclude
  | config
  | paths
  deriving DecidableEq, Repr

/-- An option that takes no value. -/
inductive Flag
  | verbose
  | dryRun
  | json
  | help
  | version
  deriving DecidableEq, Repr

/-- A long option. -/
inductive LongOption
  | flag (f : Flag)
  | valued (v : Valued)
  deriving DecidableEq, Repr

/-- The long option with this name. -/
def LongOption.ofName? (name : Text) : Option LongOption :=
  match String.ofList name with
  | "verbose" => some (.flag .verbose)
  | "dry-run" => some (.flag .dryRun)
  | "json" => some (.flag .json)
  | "help" => some (.flag .help)
  | "version" => some (.flag .version)
  | "rev" => some (.valued .revision)
  | "exclude" => some (.valued .exclude)
  | "config" => some (.valued .config)
  | _ => none

/-- The option with this letter. -/
def Flag.ofLetter? : Char → Option Flag
  | 'v' => some .verbose
  | 'h' => some .help
  | 'V' => some .version
  | _ => none

/-- Values that are not taken in yet, in the order given. -/
structure Pending where
  target : Valued
  values : List Text
  deriving DecidableEq, Repr

/-- A command line read in part. -/
structure Reading where
  options : Options := {}
  pending : Option Pending := none
  deriving DecidableEq, Repr

namespace Options

/-- Take in the values of one occurrence of an option, or a run of paths. -/
def take (o : Options) (target : Valued) (values : List Text) : Except UsageError Options :=
  match target, values with
  | _, [] => .error .invalidValue
  | .revision, v :: _ =>
      if o.revision.isSome then .error .repeatedOption else .ok { o with revision := some v }
  | .exclude, vs => .ok { o with exclude := o.exclude ++ vs }
  | .config, v :: _ =>
      if o.config.isSome then .error .repeatedOption
      else if v = [] then .error .invalidValue
      else .ok { o with config := some v }
  | .paths, vs =>
      if vs.contains [] then .error .invalidValue else .ok { o with paths := o.paths ++ vs }

/-- Set an option that takes no value. -/
def setFlag (o : Options) : Flag → Except UsageError Options
  | .verbose => if o.verbose then .error .repeatedOption else .ok { o with verbose := true }
  | .dryRun => if o.dryRun then .error .repeatedOption else .ok { o with dryRun := true }
  | .json => if o.json then .error .repeatedOption else .ok { o with json := true }
  | .help => .error .help
  | .version => .error .version

end Options

namespace Reading

/-- Take the pending values in. -/
def flush (r : Reading) : Except UsageError Options :=
  match r.pending with
  | none => .ok r.options
  | some p => r.options.take p.target p.values

/-- Set an option that takes no value. -/
def setFlag (r : Reading) (f : Flag) : Except UsageError Reading := do
  return { options := ← (← r.flush).setFlag f }

/-- Set the options of a cluster of letters. -/
def setLetters (r : Reading) : Text → Except UsageError Reading
  | [] => .ok r
  | c :: rest =>
      match Flag.ofLetter? c with
      | none => .error .unknownArgument
      | some f => do (← r.setFlag f).setLetters rest

/-- Cut a long option into its name and the value behind `=`. -/
def splitValue (t : Text) : Text × Option Text :=
  match t.dropWhile (· ≠ '=') with
  | [] => (t, none)
  | _ :: value => (t.takeWhile (· ≠ '='), some value)

/-- Read a long option, without the dashes in front of it. -/
def readLong (r : Reading) (t : Text) : Except UsageError Reading :=
  let (name, value) := splitValue t
  match LongOption.ofName? name, value with
  | none, _ => .error .unknownArgument
  | some (.flag _), some _ => .error .unneededValue
  | some (.flag f), none => r.setFlag f
  | some (.valued target), some v => do return { options := ← (← r.flush).take target [v] }
  | some (.valued target), none => do return { options := ← r.flush, pending := some ⟨target, []⟩ }

/-- Read an argument that is a path. -/
def readPath (r : Reading) (t : Text) : Except UsageError Reading :=
  match r.pending with
  | some ⟨.paths, vs⟩ => .ok { r with pending := some ⟨.paths, vs ++ [t]⟩ }
  | _ => do return { options := ← r.flush, pending := some ⟨.paths, [t]⟩ }

/-- Read an argument that is a path, or the value of the option in front of it. -/
def readValue (r : Reading) (t : Text) : Except UsageError Reading :=
  match r.pending with
  | some ⟨target, []⟩ => .ok { r with pending := some ⟨target, [t]⟩ }
  | _ => r.readPath t

/-- Read the arguments behind `--`. -/
def readPaths (r : Reading) (args : List Text) : Except UsageError Reading :=
  args.foldlM readPath r

/-- Read arguments. -/
def readAll (r : Reading) : List Text → Except UsageError Reading
  | [] => .ok r
  | ['-', '-'] :: rest => r.readPaths rest
  | ('-' :: '-' :: t) :: rest => do (← r.readLong t).readAll rest
  | ('-' :: c :: t) :: rest => do (← r.setLetters (c :: t)).readAll rest
  | t :: rest => do (← r.readValue t).readAll rest

end Reading

/-- Read the arguments of a command line. A revision that the arguments do not
name is the one the environment names, if it names one. -/
def Options.parse (args : List Text) (environment : Option Text) : Except UsageError Options := do
  let options ← (← Reading.readAll {} args).flush
  if options.paths = [] then .error .missingPath
  else return { options with revision := options.revision <|> environment }

end CleanDiff
