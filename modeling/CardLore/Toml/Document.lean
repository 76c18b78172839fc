import CardLore.Text.Lines
import CardLore.Toml.Value

namespace CardLore.Toml

-- What was read of a document: its tables, the path of the open one, and the paths that restrict
-- what may follow.
structure Document where
  table : Table := []
  header : List Text := []
  -- Tables that cannot be opened (again).
  opened : List (List Text) := []
  -- Tables made by the keys under the open header. They count as opened from the next header on.
  pending : List (List Text) := []
  -- Arrays and tables written as values: nothing in them can be changed.
  closed : List (List Text) := []

namespace Document

def isClosed (d : Document) (path : List Text) : Bool :=
  d.closed.any (·.isPrefixOf path)

-- A header ends the keys above it.
def beginHeader (d : Document) : Document :=
  { d with opened := d.pending ++ d.opened, pending := [] }

def openTable (d : Document) (path : List Text) : Option Document := do
  if path ∈ d.opened || d.isClosed path then none
  let table ← d.table.within true some path
  return { d with table, header := path, opened := path :: d.opened }

-- Adds a table to an array of tables. What restricted the one before does not restrict it.
def appendTable (d : Document) (path : List Text) : Option Document := do
  if d.isClosed path then none
  let name ← path.getLast?
  let table ← d.table.within true (Table.addTable name) path.dropLast
  let outside := fun (p : List Text) => !path.isPrefixOf p
  return { d with
    table, header := path
    opened := path :: d.opened.filter outside
    closed := d.closed.filter outside }

-- The paths of the tables that a key with several parts goes through.
def throughPaths (header : List Text) (path : List Text) : List (List Text) :=
  (List.range path.length).tail.map fun n => header ++ path.take n

def assign (d : Document) (path : List Text) (item : Value) : Option Document := do
  let through := throughPaths d.header path
  if through.any (· ∈ d.opened) || d.isClosed (d.header ++ path.dropLast) then none
  let full := d.header ++ path
  let table ← d.table.addAt true full item
  return { d with
    table
    pending := through ++ d.pending
    closed := if item.isComposite then full :: d.closed else d.closed }

def statement (limit : Nat) (d : Document) : Reader Document
  | '[' :: '[' :: rest => do
    let (path, rest) ← orMalformed (key (skipSpace rest))
    let d ← orMalformed (d.beginHeader.appendTable path)
    match rest with
    | ']' :: ']' :: rest => return (d, rest)
    | _ => .error .malformed
  | '[' :: rest => do
    let (path, rest) ← orMalformed (key (skipSpace rest))
    let d ← orMalformed (d.beginHeader.openTable path)
    match rest with
    | ']' :: rest => return (d, rest)
    | _ => .error .malformed
  | cs => do
    let (path, rest) ← orMalformed (key cs)
    match rest with
    | '=' :: rest =>
      let (item, rest) ← value (rest.length + 1) limit (skipSpace rest)
      return (← orMalformed (d.assign path item), rest)
    | _ => .error .malformed

-- The lines of a document. Each takes at least its line end off the text.
def lines (limit : Nat) : (bound : Nat) → Document → List Char → Except Fault Document
  | 0, d, _ => .ok d
  | bound + 1, d, cs => do
    match skipSpace cs with
    | [] => return d
    | '\n' :: rest => lines limit bound d rest
    | cs =>
      let (d, rest) ← match cs with
        | '#' :: _ => .ok (d, cs)
        | cs => d.statement limit cs
      match ← orMalformed (skipComment? (skipSpace rest)) with
      | [] => return d
      | '\n' :: rest => lines limit bound d rest
      | _ => .error .malformed

end Document

-- A carriage return before a line feed is no part of the text.
def joinLineEnds : List Char → List Char
  | '\r' :: '\n' :: rest => '\n' :: joinLineEnds rest
  | c :: rest => c :: joinLineEnds rest
  | [] => []

def read (source : List Char) (limit : Nat := defaultLimit) : Except Fault Table :=
  let cs := joinLineEnds source
  (Document.lines limit (cs.length + 1) {} cs).map (·.table)

end CardLore.Toml
