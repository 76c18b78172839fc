import CardLore.Files.Tree

namespace CardLore

-- The suffix of source files.
def sourceSuffix : String := ".crucible"

namespace FileSystem

def isSourceName (name : String) : Bool :=
  sourceSuffix.toList.isSuffixOf name.toList

-- The path of names ends in a source name.
def endsInSource (names : List String) : Bool :=
  (names.getLast?.map isSourceName).getD false

-- The sources below a directory, in order.
def sourcesBelow (p : Path) (directory : Entry) : List Path :=
  let found := (directory.descendants.map (·.1)).filter endsInSource
  (found.mergeSort Path.lePart).map fun names => { p with parts := p.parts ++ names }

def expand (fs : FileSystem) (p : Path) : Except AccessFault (List Path) := do
  match ← fs.entry? p with
  | some (.directory entries) => return sourcesBelow p (.directory entries)
  | _ => return [p]

-- The paths whose locations are neither in `seen` nor those of earlier paths.
def distinct (fs : FileSystem) (seen : List (List String)) : List Path → List Path
  | [] => []
  | p :: rest =>
    let location := fs.resolve p
    if location ∈ seen then distinct fs seen rest
    else p :: distinct fs (location :: seen) rest

def discover (fs : FileSystem) (paths : List Path) : Except AccessFault (List Path) := do
  let found := (← paths.mapM fs.expand).flatten
  if found.any (·.hasNull) then .error .nullInName
  return fs.distinct [] found

end FileSystem

end CardLore
