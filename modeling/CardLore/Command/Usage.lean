import CardLore.Command.Arguments
import CardLore.Text.Quoted

namespace CardLore.Command

def programName : String := "crucible"

def programVersion : String := "0.1.0"

-- What is said about a command: how to call it, what it does, and terms with their meanings.
structure Page where
  command : String
  arguments : String
  summary : String
  sections : List (String × List (String × String))

namespace Page

def usage (p : Page) : String := s!"Usage: {p.command} {p.arguments}"

-- Terms and meanings in two columns.
def columns (entries : List (String × String)) : List String :=
  let width := (entries.map (·.1.length)).foldl max 0
  entries.map fun (term, meaning) =>
    "  " ++ term ++ String.ofList (List.replicate (width - term.length + 2) ' ') ++ meaning

def lines (p : Page) : List String :=
  [p.usage, "", "  " ++ p.summary]
    ++ p.sections.flatMap fun (title, entries) => ["", title ++ ":"] ++ columns entries

def text (p : Page) : String := "\n".intercalate p.lines

end Page

-- What every page says about itself.
def helpEntry : String × String := ("--help", "Show this message and exit.")

def checkSummary : String := "Compile .crucible files and report every error."

def newSummary : String := "Create a new Crucible project."

def viewSummary : String := "View the parsed units of a Crucible source file."

def mainPage : Page where
  command := programName
  arguments := "[OPTIONS] COMMAND [ARGS]..."
  summary := "The Crucible content compiler."
  sections := [
    ("Options", [
      ("--version", "Show the version and exit."),
      ("-v, --verbose", "Log more (repeatable)."),
      ("-q, --quiet", "Log less (repeatable)."),
      helpEntry]),
    ("Commands", [("check", checkSummary), ("new", newSummary), ("view", viewSummary)])]

def checkPage : Page where
  command := s!"{programName} check"
  arguments := "[OPTIONS] [PATHS]..."
  summary := checkSummary
  sections := [("Options", [("-j, --jobs INTEGER", "Parallel parse workers."), helpEntry])]

def newPage : Page where
  command := s!"{programName} new"
  arguments := "[OPTIONS] NAME"
  summary := newSummary
  sections := [("Options", [helpEntry])]

def viewPage : Page where
  command := s!"{programName} view"
  arguments := "[OPTIONS] FILE"
  summary := viewSummary
  sections := [("Options", [helpEntry])]

inductive UsageFault where
  | argument (fault : ArgumentFault)
  | missingCommand
  | unknownCommand (name : String)
  | missingArgument (name : String)
  | extraArguments (arguments : List String)
  | notAnInteger (options value : String)
  | missingPath (name what path : String)
  | directoryPath (name what path : String)

def ArgumentFault.message : ArgumentFault → Text
  | unknownOption option => Text.concat ["No such option ", Text.quoted option, "."]
  | missingValue option => Text.concat ["Option ", Text.quoted option, " requires an argument."]
  | unwantedValue option => Text.concat ["Option ", Text.quoted option, " does not take a value."]

namespace UsageFault

def message : UsageFault → Text
  | argument fault => fault.message
  | missingCommand => "Missing command."
  | unknownCommand name => Text.concat ["No such command ", Text.quoted name, "."]
  | missingArgument name => s!"Missing argument '{name}'."
  | extraArguments [a] => s!"Got unexpected extra argument ({a})"
  | extraArguments as =>
    Text.concat ["Got unexpected extra arguments (", " ".intercalate as, ")"]
  | notAnInteger options value =>
    Text.concat ["Invalid value for ", options, ": ", Text.quoted value, " is not a valid integer."]
  | missingPath name what path =>
    Text.concat ["Invalid value for '", name, "': ", what, " ", Text.quoted path,
      " does not exist."]
  | directoryPath name what path =>
    Text.concat ["Invalid value for '", name, "': ", what, " ", Text.quoted path,
      " is a directory."]

-- A fault that only the value of an option shows says nothing about the command.
def isAboutValue : UsageFault → Bool
  | argument (.missingValue _) => true
  | argument (.unwantedValue _) => true
  | _ => false

-- What is printed about a fault: how to call the command, and what is wrong.
def report (fault : UsageFault) (page : Page) : Text :=
  let error := Text.concat ["Error: ", fault.message]
  if fault.isAboutValue then error
  else Text.join "\n" [page.usage, s!"Try '{page.command} --help' for help.", "", error]

end UsageFault

end CardLore.Command
