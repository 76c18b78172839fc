namespace CardLore

-- A path: `root` is empty for a relative path. Two leading slashes are a root of their own.
structure Path where
  root : String
  parts : List String
deriving DecidableEq, Repr

namespace Path

-- The parts between slashes; `read` holds the current one, its last character first.
def splitFrom (read : List Char) : List Char → List String
  | [] => [String.ofList read.reverse]
  | '/' :: rest => String.ofList read.reverse :: splitFrom [] rest
  | c :: rest => splitFrom (c :: read) rest

def rootOf : List Char → String
  | '/' :: '/' :: '/' :: _ => "/"
  | '/' :: '/' :: _ => "//"
  | '/' :: _ => "/"
  | _ => ""

def ofString (s : String) : Path where
  root := rootOf s.toList
  parts := (splitFrom [] s.toList).filter fun part => part != "" && part != "."

-- The path as text. The path without any part is a dot.
def toText (p : Path) : String :=
  if p.root = "" ∧ p.parts = [] then "." else p.root ++ "/".intercalate p.parts

def isAbsolute (p : Path) : Bool :=
  p.root != ""

-- A name with a null character names nothing.
def hasNull (p : Path) : Bool :=
  p.parts.any (·.toList.contains '\x00')

-- The absolute path with the given parts.
def ofParts (parts : List String) : Path := ⟨"/", parts⟩

-- `other` as seen from `p`.
def join (p other : Path) : Path :=
  if other.isAbsolute then other else { p with parts := p.parts ++ other.parts }

-- The path without its last part.
def parent (p : Path) : Path :=
  { p with parts := p.parts.dropLast }

-- Goes along `parts` from the location `start`; a double dot goes one step back.
def normalize (start : List String) : List String → List String
  | [] => start
  | part :: rest =>
    if part = ".." then normalize start.dropLast rest else normalize (start ++ [part]) rest

def lePart : List String → List String → Bool
  | [], _ => true
  | _ :: _, [] => false
  | a :: as, b :: bs => if a = b then lePart as bs else a < b

end Path

end CardLore
