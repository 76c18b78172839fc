import CardLore.Command.Program

namespace CardLore.Main

-- The entry itself, with everything below it.
partial def readEntry (e : IO.FS.DirEntry) : IO Entry := do
  if ← e.path.isDir then
    let entries ← (← e.path.readDir).toList.mapM fun below => do
      return (below.fileName, ← readEntry below)
    return .directory entries
  else
    return .file (← IO.FS.readBinFile e.path).toList

-- Copies what is at a location, and the directories that lead to it.
def copy (root : Entry) (location : List String) : IO Entry := do
  let here ← IO.currentDir
  let entryAt (names : List String) : IO.FS.DirEntry := ⟨here, (Path.ofParts names).toText⟩
  let mut root := root
  for length in List.range location.length do
    let names := location.take length
    if (root.at? names).isNone && (← (entryAt names).path.pathExists) then
      let isDirectory ← (entryAt names).path.isDir
      root := root.put (if isDirectory then .directory [] else .file []) names
  if ← (entryAt location).path.pathExists then
    root := root.put (← readEntry (entryAt location)) location
  return root

-- The copy that a run with these arguments needs.
def load (arguments : List String) : IO FileSystem := do
  let cwd := (Path.ofString (← IO.currentDir).toString).parts
  let empty : FileSystem := ⟨(Entry.directory []).put (.directory []) cwd, cwd⟩
  let configs := (List.range (cwd.length + 1)).map fun length => cwd.take length ++ [Config.fileName]
  let named := arguments.map fun argument => empty.resolve (.ofString argument)
  let root ← (configs ++ named).foldlM copy empty.root
  let fs := { empty with root }
  match Config.projectSources? fs with
  | none => return fs
  | some sources => return { fs with root := ← copy root (fs.resolve sources) }

-- Makes the entries that are new.
def save (before after : FileSystem) : IO Unit := do
  for (names, e) in after.created before [] do
    let path := (Path.ofParts names).toText
    match e with
    | .directory _ => IO.FS.createDirAll path
    | .file bytes => IO.FS.writeBinFile path ⟨bytes.toArray⟩

end CardLore.Main

open CardLore in
def main (arguments : List String) : IO UInt32 := do
  let files ← Main.load arguments
  let terminals := ⟨← (← IO.getStdout).isTty, ← (← IO.getStderr).isTty⟩
  let outcome := Command.run arguments files terminals
  Main.save files outcome.files
  IO.print ((Text.toString? outcome.output).getD "")
  IO.eprint ((Text.toString? outcome.errors).getD "")
  if let some cause := outcome.breakdown then
    IO.eprintln s!"error: {cause.description}"
  return UInt32.ofNat outcome.exitCode
