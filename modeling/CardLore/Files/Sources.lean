import CardLore.Compilation
import CardLore.Files.Discovery

namespace CardLore

inductive SourceFault where
  | access (fault : AccessFault)
  | openComment (mismatch : Mismatch)

def FileSystem.parse (fs : FileSystem) (p : Path) (limit : Nat := defaultLimit) :
    Except SourceFault ParsedFile :=
  match fs.readText p with
  | .ok source => (ParsedFile.ofSource p.toText source limit).mapError .openComment
  | .error (.access .nullInName) => .error (.access .nullInName)
  | .error fault => .ok ⟨p.toText, .error (.unreadable (fault.message p))⟩

-- How many files are read at once if nothing else is asked for.
def automaticJobs : Int := 32

-- How many files are read at once: no more than there are, and at least one. Zero and no number
-- leave it to the program.
def workerCount (jobs : Option Int) (files : Nat) : Int :=
  let wanted := match jobs with
    | none => automaticJobs
    | some n => if n = 0 then automaticJobs else n
  max 1 (min wanted files)

namespace Compilation

-- The report on a run without any source.
def noSources : Compilation where
  corpus := none
  diagnostics := [⟨.error, "E001", s!"no {sourceSuffix} files found", [], []⟩]
  files := []

def ofPaths (fs : FileSystem) (paths : List Path) (limit : Nat := defaultLimit) :
    Except SourceFault Compilation := do
  match ← (fs.discover paths).mapError .access with
  | [] => return noSources
  | sources => return ofFiles (← sources.mapM (fs.parse · limit))

end Compilation

end CardLore
