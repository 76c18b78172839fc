import CardLore.Files.Sources

namespace CardLore

inductive LogLevel where
  | debug
  | info
deriving DecidableEq, Repr

def LogLevel.name : LogLevel → String
  | debug => "DEBUG"
  | info => "INFO"

structure LogEntry where
  level : LogLevel
  part : String
  message : String
deriving Repr

def LogEntry.line (e : LogEntry) : String :=
  s!"[{e.level.name}] crucible.{e.part}: {e.message}"

structure Verbosity where
  more : Nat := 0
  less : Nat := 0

namespace Verbosity

-- Whoever asks for less this often hears nothing.
def silentFrom : Nat := 3

-- Whether messages of a level are shown: those about details only if more is asked for.
def shows (v : Verbosity) : LogLevel → Bool
  | .debug => v.less < silentFrom && v.less < v.more
  | .info => v.less < silentFrom && v.less ≤ v.more

end Verbosity

def LogEntry.reading (files : Nat) (workers : Int) : LogEntry :=
  ⟨.info, "compiler", s!"parsing {files} file(s) with {workers} worker(s)"⟩

def ParsedFile.log (p : ParsedFile) : List LogEntry :=
  let entry := fun (message : String) => LogEntry.mk .debug "compiler" s!"{p.file}: {message}"
  match p.result with
  | .ok tree => [entry s!"{tree.declarations.length} unit(s)"]
  | .error (.unreadable _) => []
  | .error .tooDeep => [entry "nesting exceeds the recursion limit"]
  | .error _ => [entry s!"{p.diagnostics.length} error(s)"]

def FileTree.log (t : FileTree) : LogEntry :=
  ⟨.debug, "merger", s!"merging {t.file} ({t.declarations.length} units)"⟩

def Compilation.log (c : Compilation) : List LogEntry :=
  let trees := c.files.filterMap (·.tree?)
  let merged := match mergeTrees trees with
    | .ok corpus => [⟨.info, "merger",
        s!"merged {corpus.size} component(s) from {trees.length} file(s)"⟩]
    | .error _ => []
  let failed := if c.ok then [] else [⟨.info, "compiler",
    s!"compilation failed: {c.diagnostics.length} error(s) in {c.files.length} file(s)"⟩]
  trees.map (·.log) ++ merged ++ failed

end CardLore
