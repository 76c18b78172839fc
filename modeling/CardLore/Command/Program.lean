import CardLore.Command.Check
import CardLore.Command.New
import CardLore.Command.View

namespace CardLore.Command

inductive MainOption where
  | version
  | verbose
  | quiet
  | help
deriving DecidableEq, Repr

def mainOptions : List (OptionSpec MainOption) := [
  { name := .version, short := none, long := "--version" },
  { name := .verbose, short := some 'v', long := "--verbose" },
  { name := .quiet, short := some 'q', long := "--quiet" },
  { name := .help, short := none, long := "--help" }]

-- Options that print something and end the program.
def MainOption.isQuestion : MainOption → Bool
  | version => true
  | help => true
  | verbose => false
  | quiet => false

-- Reads the arguments up to the name of a command. The first question among the options is
-- answered.
def readMain (arguments : List String) : Run (Arguments MainOption) := do
  match readArguments mainOptions false arguments with
  | .error fault => refuse mainPage (.argument fault)
  | .ok given =>
    match (given.options.map (·.1)).find? MainOption.isQuestion with
    | some .version =>
      print s!"{programName}, version {programVersion}"
      exit 0
    | some _ =>
      print mainPage.text
      exit 0
    | none => return given

def command? : String → Option (List String → Run Unit)
  | "check" => some check
  | "new" => some new
  | "view" => some view
  | _ => none

def program (arguments : List String) : Run Unit := do
  if arguments.isEmpty then
    complain mainPage.text
    exit 2
  let given ← readMain arguments
  modify fun s => { s with verbosity := ⟨given.count .verbose, given.count .quiet⟩ }
  match given.others with
  | [] => refuse mainPage .missingCommand
  | name :: rest => match command? name with
    | some command => command rest
    | none =>
      -- Behind two hyphens an option is no command, but a question among the options is still
      -- heard.
      let _ ← readMain (name :: rest)
      refuse mainPage (.unknownCommand name)

structure Outcome where
  exitCode : Nat
  breakdown : Option Breakdown
  output : Text
  errors : Text
  files : FileSystem

def run (arguments : List String) (files : FileSystem) (terminals : Terminals)
    (limit : Nat := defaultLimit) : Outcome :=
  let (result, s) := (program arguments).run.run { files, terminals, limit }
  let (exitCode, breakdown) := match result with
    | .ok () => (0, none)
    | .error (.exit code) => (code, none)
    | .error (.breakdown cause) => (1, some cause)
  ⟨exitCode, breakdown, s.output, s.errors, s.files⟩

end CardLore.Command
