import CardLore.Files.Tree
import CardLore.Project.Config
import CardLore.Text.Lower
import CardLore.Text.Word

namespace CardLore

namespace Scaffold

-- Lines, each with its end.
def fileOf (lines : List String) : Entry :=
  .file (String.join (lines.map (· ++ "\n"))).toUTF8.toList

-- The namespace for a project: its name in lower case, with underscores for what is neither a
-- letter nor a digit.
def namespaceFor (name : String) : String :=
  let lowered := ((Text.lower name).toChars?.getD []).map fun c =>
    if Text.isWord c then c else '_'
  if lowered.isEmpty then "content" else String.ofList lowered

def config (name : String) : Entry := fileOf [
  "[package]",
  "name = \"" ++ name ++ "\"",
  "version = \"0.1.0\"",
  "",
  "[build]",
  "content = \"src/content\"",
  "jobs = 0"]

-- The declarations that a project starts with, and the end of their namespace.
def firstDeclarations : List String := [
  "    aspect lantern \"Lantern\" \"The light that shows what is hidden.\" \x7b",
  "        set icon = \"lantern.png\"",
  "    \x7d",
  "",
  "    card candle \"Candle\" \"A small light.\" (lantern: 1) -> 30 \x7b",
  "        xtrigger lantern -> ash 50%",
  "    \x7d",
  "",
  "    verb work \"Work\" \"Earn your bread.\"",
  "\x7d"]

def firstSource (name : String) : Entry := fileOf ([
  "#![mod.name = \"" ++ name ++ "\"]",
  "",
  "namespace " ++ namespaceFor name ++ " \x7b"] ++ firstDeclarations)

def ignoredFiles : Entry := fileOf ["build/", "__pycache__/"]

def readme (name : String) : Entry := fileOf [
  "# " ++ name,
  "",
  "Content for a card game, written in the Crucible language.",
  "",
  "## Check",
  "",
  "```bash",
  "crucible check",
  "```"]

-- The files of a new project, with their paths in it.
def files (name : String) : List (List String × Entry) := [
  ([Config.fileName], config name),
  (["src", "content", "main.crucible"], firstSource name),
  ([".gitignore"], ignoredFiles),
  (["README.md"], readme name)]

end Scaffold

-- Why a project cannot be made: something has its name, or the making of an entry broke off.
inductive ScaffoldFault where
  | alreadyExists (name : String)
  | interrupted (cause : FileSystem.Interruption)

namespace ScaffoldFault

def message : ScaffoldFault → Text
  | alreadyExists name => s!"Directory '{name}' already exists"
  | interrupted cause => cause.fault.message cause.path

-- Something stands where the project or one of its directories would.
def isConflict : ScaffoldFault → Bool
  | alreadyExists _ => true
  | interrupted cause => cause.fault = .alreadyExists

def left (fs : FileSystem) : ScaffoldFault → FileSystem
  | alreadyExists _ => fs
  | interrupted cause => { fs with root := cause.left }

end ScaffoldFault

namespace Scaffold

def make (fs : FileSystem) (project : Path) (name : String) :
    Except FileSystem.Interruption Entry := do
  let content := project.join (.ofString "src/content")
  (FileSystem.checkPath content).mapError fun fault => ⟨fault, content, fs.root⟩
  let root ← FileSystem.makeDirectories fs.root (fs.start content) { content with parts := [] } false
    content.parts
  (files name).foldlM (fun root (names, e) =>
    FileSystem.writeFile { fs with root } (project.join ⟨"", names⟩) e) root

end Scaffold

-- Makes a new project of that name in the directory `base`. Gives the path of the project and the
-- files there are then.
def scaffold (fs : FileSystem) (base : Path) (name : String) :
    Except ScaffoldFault (Path × FileSystem) := do
  let project := base.join (.ofString name)
  match fs.entry? project with
  | .ok (some _) => .error (.alreadyExists name)
  | .error fault => .error (.interrupted ⟨fault, project, fs.root⟩)
  | .ok none =>
    let root ← (Scaffold.make fs project name).mapError .interrupted
    return (project, { fs with root })

end CardLore
