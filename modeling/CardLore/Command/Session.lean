import CardLore.Command.Log
import CardLore.Command.Usage
import CardLore.Diagnostic.Render
import CardLore.Project.Scaffold
import CardLore.Text.ControlSequence
import CardLore.Toml.Display

namespace CardLore.Command

inductive Breakdown where
  | config (fault : ConfigFault)
  | contentNotText
  | jobsNotNumber
  | numberTooLong
  | source (fault : SourceFault)
  | access (fault : AccessFault)
  | unprintable

-- A few words for whoever started the program.
def Breakdown.description : Breakdown → String
  | config (.unreadable _) => s!"{Config.fileName} cannot be read"
  | config (.source .malformed) => s!"{Config.fileName} is malformed"
  | config (.source .integerTooLong) => s!"an integer in {Config.fileName} has too many digits"
  | config (.source .tooDeep) => s!"{Config.fileName} is nested too deep"
  | config .sectionNotTable => s!"a section of {Config.fileName} is not a table"
  | contentNotText => "the content setting is not a text"
  | jobsNotNumber => "the jobs setting is not a number"
  | numberTooLong => "a setting is a number with too many digits"
  | source (.openComment mismatch) => mismatch.message
  | source (.access _) => "a source cannot be reached"
  | access _ => "a file cannot be reached"
  | unprintable => "a text cannot be printed"

inductive Stop where
  | exit (code : Nat)
  | breakdown (cause : Breakdown)

structure Terminals where
  output : Bool := false
  errors : Bool := false

structure Session where
  files : FileSystem
  terminals : Terminals := {}
  verbosity : Verbosity := {}
  output : Text := []
  errors : Text := []
  limit : Nat := defaultLimit

abbrev Run (α : Type) := ExceptT Stop (StateM Session) α

-- A line as a channel gets it: control sequences are for terminals only.
def shownOn (terminal : Bool) (line : Text) : Text :=
  if terminal then line else line.plain

-- Writes a line to the output. There is no way to write half of a surrogate pair.
def print (line : Text) : Run Unit := do
  if line.any CodePoint.isSurrogate then throw (.breakdown .unprintable)
  modify fun s => { s with
    output := s.output ++ shownOn s.terminals.output line ++ Text.ofString "\n" }

-- Halves of surrogate pairs are written as escapes.
def escapeSurrogates (t : Text) : Text :=
  t.flatMap fun p => if p.isSurrogate then
    Text.ofChars ('\\' :: 'u' :: Nat.toDigits 16 p.toNat) else [p]

-- Writes a line to the error channel as it is.
def writeError (line : Text) : Run Unit :=
  modify fun s => { s with errors := s.errors ++ escapeSurrogates line ++ Text.ofString "\n" }

def complain (line : Text) : Run Unit := do
  writeError (shownOn (← get).terminals.errors line)

-- Tells about a step. File names keep their control sequences here.
def log (e : LogEntry) : Run Unit := do
  if (← get).verbosity.shows e.level then writeError e.line

def exit {α : Type} (code : Nat) : Run α := throw (.exit code)

def breakDown {α : Type} (cause : Breakdown) : Run α := throw (.breakdown cause)

def refuse {α : Type} (page : Page) (fault : UsageFault) : Run α := do
  complain (fault.report page)
  exit 2

-- The arguments of a command. Asking for help ends it with its page.
def readFor {ι : Type} [DecidableEq ι] (page : Page) (help : ι) (specs : List (OptionSpec ι))
    (arguments : List String) : Run (Arguments ι) := do
  match readArguments specs true arguments with
  | .error fault => refuse page (.argument fault)
  | .ok given =>
    if 0 < given.count help then
      print page.text
      exit 0
    return given

-- The entry at a path that was given as an argument, which has to exist.
def givenEntry (page : Page) (argument what path : String) : Run Entry := do
  match (← get).files.status path with
  | .ok e => return e
  | .error .nullInName => breakDown (.access .nullInName)
  | .error _ => refuse page (.missingPath argument what path)

def report (diagnostics : List Diagnostic) : Run Unit := do
  let s ← get
  let renderer : Renderer := ⟨s.terminals.errors, s.files.sourceLine?⟩
  for d in diagnostics do
    complain (renderer.render d)

end CardLore.Command
