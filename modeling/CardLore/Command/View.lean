import CardLore.Command.Session
import CardLore.View.Declaration

namespace CardLore.Command

inductive ViewOption where
  | help
deriving DecidableEq, Repr

def viewOptions : List (OptionSpec ViewOption) := [
  { name := .help, short := none, long := "--help" }]

-- Prints the tree of a file, which goes by the name that it was given.
def viewFile (file : String) : Run Unit := do
  let path := Path.ofString file
  match (← get).files.readText path with
  | .error (.access fault) => breakDown (.access fault)
  | .error fault =>
    complain (Text.concat ["error: cannot read ", file, ": ", fault.message path])
    exit 1
  | .ok source =>
    match ParsedFile.ofSource file source (← get).limit with
    | .error mismatch => breakDown (.source (.openComment mismatch))
    | .ok parsed =>
      for entry in parsed.log do log entry
      match parsed.result with
      | .ok tree => for line in tree.view.dump 0 do print line
      | .error _ =>
        report parsed.diagnostics
        exit 1

def view (arguments : List String) : Run Unit := do
  let given ← readFor viewPage .help viewOptions arguments
  match given.others with
  | [] => refuse viewPage (.missingArgument "FILE")
  | file :: extra =>
    match ← givenEntry viewPage "FILE" "File" file with
    | .directory _ => refuse viewPage (.directoryPath "FILE" "File" file)
    | .file _ =>
      if extra.isEmpty then viewFile file else refuse viewPage (.extraArguments extra)

end CardLore.Command
