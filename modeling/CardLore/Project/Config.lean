import CardLore.Files.Tree
import CardLore.Toml.Document

namespace CardLore

structure Config where
  name : Toml.Value := .string "untitled"
  version : Toml.Value := .string "0.0.0"
  content : Toml.Value := .string "src/content"
  jobs : Toml.Value := .int 0

inductive ConfigFault where
  | unreadable (fault : ReadFault)
  | source (fault : Toml.Fault)
  | sectionNotTable

namespace Config

def fileName : String := "crucible.toml"

-- The members of a section, which may be missing.
def section? (table : Toml.Table) (name : String) : Option Toml.Table :=
  match table.get? name with
  | none => some []
  | some (.table members) => some members
  | some _ => none

-- The settings that a table gives, with defaults for those that are missing.
def ofTable (table : Toml.Table) : Option Config := do
  let package ← section? table "package"
  let build ← section? table "build"
  let default : Config := {}
  return {
    name := (package.get? "name").getD default.name
    version := (package.get? "version").getD default.version
    content := (build.get? "content").getD default.content
    jobs := (build.get? "jobs").getD default.jobs }

def ofSource (source : List Char) (limit : Nat := defaultLimit) : Except ConfigFault Config := do
  let table ← (Toml.read source limit).mapError .source
  match ofTable table with
  | some config => return config
  | none => .error .sectionNotTable

def load (fs : FileSystem) (p : Path) (limit : Nat := defaultLimit) :
    Except ConfigFault Config := do
  let bytes ← (fs.readBytes p).mapError (.unreadable ∘ .access)
  let source ← (Text.Utf8.decode bytes).mapError (.unreadable ∘ .encoding)
  ofSource source limit

-- The nearest directory with a configuration; the path of names starts with the last one.
def findAbove (fs : FileSystem) : List String → Except AccessFault (Option Path)
  | [] => do
    let candidate := Path.ofParts [fileName]
    return (← fs.entry? candidate).map fun _ => candidate
  | name :: above => do
    let candidate := Path.ofParts (fileName :: name :: above).reverse
    if (← fs.entry? candidate).isSome then return some candidate else findAbove fs above

-- The configuration of the project that a path lies in, if it lies in one.
def find? (fs : FileSystem) (start : Path) : Except AccessFault (Option Path) := do
  if start.hasNull then .error .nullInName
  let location := fs.resolve start
  let directory := match ← fs.entry? (.ofParts location) with
    | some (.file _) => location.dropLast
    | _ => location
  findAbove fs directory.reverse

def notFoundMessage : String := s!"No {fileName} found in any parent directory"

-- Where the sources of a project are, given the directory of its configuration; nothing if the
-- setting is no text.
def contentPath? (c : Config) (directory : Path) : Option Path :=
  match c.content with
  | .string t => (Text.toString? t).map fun s => directory.join (.ofString s)
  | _ => none

-- Where the sources of the project are that the working directory is in.
def projectSources? (fs : FileSystem) : Option Path := do
  let path ← (find? fs (.ofString "")).toOption.join
  let config ← (load fs path).toOption
  config.contentPath? path.parent

end Config

end CardLore
