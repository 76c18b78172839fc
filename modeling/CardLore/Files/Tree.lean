import CardLore.Files.Path
import CardLore.Text.Lines
import CardLore.Text.Quoted
import CardLore.Text.Utf8

namespace CardLore

-- A file with its bytes, or a directory with its named entries.
inductive Entry where
  | file (bytes : List UInt8)
  | directory (entries : List (String × Entry))
deriving Inhabited

namespace Entry

def isDirectory : Entry → Bool
  | file _ => false
  | directory _ => true

-- The entry of that name in a directory.
def child? : Entry → String → Option Entry
  | file _, _ => none
  | directory entries, name => entries.lookup name

def at? (e : Entry) : List String → Option Entry
  | [] => some e
  | name :: rest => (e.child? name).bind (·.at? rest)

-- Replaces the entry of that name, or adds it as the last one.
def putChild (name : String) (e : Entry) : List (String × Entry) → List (String × Entry)
  | [] => [(name, e)]
  | (n, old) :: rest => if n = name then (n, e) :: rest else (n, old) :: putChild name e rest

-- Puts an entry at the end of a path of names, with directories on the way as needed.
def put (e new : Entry) : List String → Entry
  | [] => new
  | name :: rest => match e with
    | file bytes => file bytes
    | directory entries =>
      let below := (entries.lookup name).getD (directory [])
      directory (putChild name (below.put new rest) entries)

mutual

def descendants : Entry → List (List String × Entry)
  | file _ => []
  | directory entries => descendantsOf entries

def descendantsOf : List (String × Entry) → List (List String × Entry)
  | [] => []
  | (name, e) :: rest =>
    ([name], e) :: (e.descendants.map fun (path, below) => (name :: path, below))
      ++ descendantsOf rest

end

end Entry

inductive AccessFault where
  | notFound
  | notADirectory
  | isADirectory
  | alreadyExists
  | nameTooLong
  | nullInName
  | tooDeep
deriving DecidableEq, Repr

def AccessFault.message (path : Path) : AccessFault → Text
  | notFound => Text.concat ["[Errno 2] No such file or directory: ", Text.quoted path.toText]
  | notADirectory => Text.concat ["[Errno 20] Not a directory: ", Text.quoted path.toText]
  | isADirectory => Text.concat ["[Errno 21] Is a directory: ", Text.quoted path.toText]
  | alreadyExists => Text.concat ["[Errno 17] File exists: ", Text.quoted path.toText]
  | nameTooLong => Text.concat ["[Errno 36] File name too long: ", Text.quoted path.toText]
  | nullInName => "embedded null byte"
  | tooDeep => "too many directories in each other"

inductive ReadFault where
  | access (fault : AccessFault)
  | encoding (fault : Text.Utf8.Fault)

def ReadFault.message (path : Path) : ReadFault → Text
  | access fault => fault.message path
  | encoding fault => fault.message

-- A tree of files and the directory that relative paths start from.
structure FileSystem where
  root : Entry
  cwd : List String

namespace FileSystem

def start (fs : FileSystem) (p : Path) : List String :=
  if p.isAbsolute then [] else fs.cwd

-- The location that a path means, whether there is something or not.
def resolve (fs : FileSystem) (p : Path) : List String :=
  Path.normalize (fs.start p) p.parts

-- A name has at most this many bytes.
def maxNameBytes : Nat := 255

-- A path has at most this many bytes.
def maxPathBytes : Nat := 4095

def isTooLong (name : String) : Bool :=
  maxNameBytes < name.utf8ByteSize

def checkPath (p : Path) : Except AccessFault Unit := do
  if p.hasNull then .error .nullInName
  if maxPathBytes < p.toText.utf8ByteSize then .error .nameTooLong

-- Goes along `parts` from an existing location, through existing directories only.
def walk (fs : FileSystem) (location : List String) : List String → Except AccessFault (List String)
  | [] => .ok location
  | part :: rest =>
    match fs.root.at? location with
    | some (.directory entries) =>
      if part = ".." then walk fs location.dropLast rest
      else if isTooLong part then .error .nameTooLong
      else if (entries.lookup part).isSome then walk fs (location ++ [part]) rest
      else .error .notFound
    | some (.file _) => .error .notADirectory
    | none => .error .notFound

def entry (fs : FileSystem) (p : Path) : Except AccessFault Entry := do
  checkPath p
  let location ← fs.walk (fs.start p) p.parts
  match fs.root.at? location with
  | some e => return e
  | none => .error .notFound

-- The entry at a path, if there is one. Only a name or path that is too long is a fault.
def entry? (fs : FileSystem) (p : Path) : Except AccessFault (Option Entry) :=
  match fs.entry p with
  | .ok e => .ok (some e)
  | .error .nameTooLong => .error .nameTooLong
  | .error _ => .ok none

-- The text names a directory: it goes on behind its last part.
def endsAsDirectory (cs : List Char) : Bool :=
  match cs.reverse with
  | '/' :: _ => true
  | '.' :: '/' :: _ => true
  | _ => false

-- The entry at a path as it is written. An empty text is no path, and a slash at the end asks for a
-- directory.
def status (fs : FileSystem) (path : String) : Except AccessFault Entry := do
  if path.isEmpty then .error .notFound
  let e ← fs.entry (.ofString path)
  if maxPathBytes < path.utf8ByteSize then .error .nameTooLong
  if endsAsDirectory path.toList && !e.isDirectory then .error .notADirectory
  return e

def readBytes (fs : FileSystem) (p : Path) : Except AccessFault (List UInt8) := do
  match ← fs.entry p with
  | .file bytes => return bytes
  | .directory _ => .error .isADirectory

def readText (fs : FileSystem) (p : Path) : Except ReadFault (List Char) := do
  let bytes ← (fs.readBytes p).mapError .access
  let cs ← (Text.Utf8.decode bytes).mapError .encoding
  return Text.unifyLineEnds cs

def sourceLine? (fs : FileSystem) (file : String) (line : Nat) : Option (List Char) :=
  match line, fs.readText (.ofString file) with
  | n + 1, .ok cs => (Text.lines cs)[n]?
  | _, _ => none

-- How the making of entries breaks off: why, at which path, and the tree as it is left.
structure Interruption where
  fault : AccessFault
  path : Path
  left : Entry

-- At most this many directories are made in each other.
def maxNewDirectories : Nat := 900

-- Makes the last directory of a path, which must be new, and those before it that are missing:
-- `parts` of it are still to be gone along, from the path `p` at `location`. A file in the way is
-- no directory, but behind a directory that had to be `made` it is what exists already.
def makeDirectories (root : Entry) (location : List String) (p : Path) (made : Bool) :
    (parts : List String) → Except Interruption Entry
  | [] => .ok root
  | part :: rest =>
    let p := { p with parts := p.parts ++ [part] }
    let next := location ++ [part]
    if part = ".." then makeDirectories root location.dropLast p made rest
    else if isTooLong part then .error ⟨.nameTooLong, p, root⟩
    else match root.at? next with
      | none =>
        if !made && maxNewDirectories ≤ rest.length then .error ⟨.tooDeep, p, root⟩
        else makeDirectories (root.put (.directory []) next) next p true rest
      | some (.directory _) =>
        if rest.isEmpty then .error ⟨.alreadyExists, p, root⟩
        else makeDirectories root next p made rest
      | some (.file _) =>
        .error ⟨if made || rest.isEmpty then .alreadyExists else .notADirectory, p, root⟩

def writeFile (fs : FileSystem) (p : Path) (e : Entry) : Except Interruption Entry := do
  (checkPath p).mapError fun fault => ⟨fault, p, fs.root⟩
  match fs.root.at? (fs.resolve p) with
  | some (.directory _) => .error ⟨.isADirectory, p, fs.root⟩
  | _ => return fs.root.put e (fs.resolve p)

-- The entries that are new since `before`, with their paths below `base`, in order.
def created (fs before : FileSystem) (base : List String) : List (List String × Entry) :=
  match fs.root.at? base with
  | none => []
  | some e =>
    (e.descendants.filter fun (path, _) => (before.root.at? (base ++ path)).isNone).mergeSort
      fun a b => Path.lePart a.1 b.1

end FileSystem

end CardLore
