import CardLore.Command.Session

namespace CardLore.Command

inductive CheckOption where
  | jobs
  | help
deriving DecidableEq, Repr

def checkOptions : List (OptionSpec CheckOption) := [
  { name := .jobs, short := some 'j', long := "--jobs", takesValue := true },
  { name := .help, short := none, long := "--help" }]

-- How many files are to be read at once, as a setting of the project; zero and empty values leave
-- it open. Nothing if the setting is no number.
def jobsOf? : Toml.Value → Option (Option Int)
  | .bool b => some (if b then some 1 else none)
  | .int n => some (if n = 0 then none else some n)
  | .float x =>
    some (if x == 0 then none else if x < 1 || x.isNaN then some 1 else some x.toUInt64.toNat)
  | .string t => if t.isEmpty then some none else none
  | .array items => if items.isEmpty then some none else none
  | .table members => if members.isEmpty then some none else none
  | .date _ => none
  | .time _ => none
  | .moment _ => none

-- A setting as it is printed.
def settingText (setting : Toml.Value) : Run Text :=
  match setting.text? with
  | some text => return text
  | none => breakDown .numberTooLong

def parseAll : List Path → Run (List ParsedFile)
  | [] => return []
  | p :: rest => do
    let s ← get
    match s.files.parse p s.limit with
    | .error fault => breakDown (.source fault)
    | .ok parsed =>
      for entry in parsed.log do log entry
      return parsed :: (← parseAll rest)

def compile (targets : List Path) (jobs : Option (Option Int)) : Run Compilation := do
  match (← get).files.discover targets with
  | .error fault => breakDown (.access fault)
  | .ok [] => return .noSources
  | .ok sources =>
    match jobs with
    | none => breakDown .jobsNotNumber
    | some jobs =>
      log (.reading sources.length (workerCount jobs sources.length))
      let c := Compilation.ofFiles (← parseAll sources)
      for entry in c.log do log entry
      return c

-- The sources and the number of jobs that the configuration of the project asks for.
def projectTargets : Run (List Path × Option (Option Int)) := do
  let s ← get
  match Config.find? s.files (.ofString "") with
  | .error fault => breakDown (.access fault)
  | .ok none =>
    complain s!"error: no {Config.fileName} found and no paths given"
    exit 1
  | .ok (some path) =>
    match Config.load s.files path s.limit with
    | .error fault => breakDown (.config fault)
    | .ok config =>
      print (Text.concat ["checking ", ← settingText config.name, " v",
        ← settingText config.version, "..."])
      match config.contentPath? path.parent with
      | none => breakDown .contentNotText
      | some content => return ([content], jobsOf? config.jobs)

-- What is printed about a corpus.
def summary (corpus : Corpus) : String :=
  ", ".intercalate (Kind.all.map fun kind =>
    s!"{(corpus.collection kind).length} {kind.collection}")

-- The number of jobs, if one was given.
def givenJobs (given : Arguments CheckOption) : Run (Option Int) :=
  match given.value? .jobs with
  | none => return none
  | some value => match integer? value with
    | some n => return some n
    | none => refuse checkPage (.notAnInteger "'-j' / '--jobs'" value)

-- Paths as they are given have to exist.
def givenPaths (given : Arguments CheckOption) : Run (List Path) :=
  given.others.mapM fun argument => do
    let _ ← givenEntry checkPage "[PATHS]..." "Path" argument
    return Path.ofString argument

def check (arguments : List String) : Run Unit := do
  let given ← readFor checkPage .help checkOptions arguments
  let jobs ← givenJobs given
  let paths ← givenPaths given
  let (targets, setting) ←
    if paths.isEmpty then projectTargets else pure (paths, some none)
  let jobs := match jobs with
    | some n => some (some n)
    | none => setting
  log ⟨.debug, "cli", "check targets: " ++ ", ".intercalate (targets.map (·.toText))⟩
  let result ← compile targets jobs
  report result.diagnostics
  match result.corpus with
  | none =>
    complain s!"error: {result.diagnostics.length} error(s)"
    exit 1
  | some corpus => print s!"checked {result.files.length} file(s): {summary corpus}"

end CardLore.Command
