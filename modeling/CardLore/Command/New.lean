import CardLore.Command.Session

namespace CardLore.Command

inductive NewOption where
  | help
deriving DecidableEq, Repr

def newOptions : List (OptionSpec NewOption) := [
  { name := .help, short := none, long := "--help" }]

def newProject (name : String) : Run Unit := do
  let s ← get
  match scaffold s.files (.ofParts s.files.cwd) name with
  | .ok (project, files) =>
    set { s with files }
    print s!"created project '{name}' at {project.toText}"
  | .error fault =>
    set { s with files := fault.left s.files }
    match fault.isConflict, fault with
    | false, .interrupted cause => breakDown (.access cause.fault)
    | _, _ =>
      complain (Text.concat ["error: ", fault.message])
      exit 1

def new (arguments : List String) : Run Unit := do
  let given ← readFor newPage .help newOptions arguments
  match given.others with
  | [] => refuse newPage (.missingArgument "NAME")
  | [name] => newProject name
  | _ :: extra => refuse newPage (.extraArguments extra)

end CardLore.Command
