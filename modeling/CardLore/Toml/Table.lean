import CardLore.Toml.Basic

namespace CardLore.Toml

namespace Table

def get? (t : Table) (name : Text) : Option Value := t.lookup name

-- Replaces the member of that name, or adds it as the last one.
def put (name : Text) (value : Value) : Table → Table
  | [] => [(name, value)]
  | (n, old) :: rest => if n = name then (n, value) :: rest else (n, old) :: put name value rest

-- Changes the table at the end of a path and makes those that are missing on the way. Through an
-- array of tables the path leads into its last one, if `throughArrays`.
def within (throughArrays : Bool) (change : Table → Option Table) : List Text → Table → Option Table
  | [], t => change t
  | name :: path, t => do
    match t.get? name with
    | none => return t.put name (.table (← within throughArrays change path []))
    | some (.table members) =>
      return t.put name (.table (← within throughArrays change path members))
    | some (.array items) => match throughArrays, items.getLast? with
      | true, some (.table members) =>
        let last ← within throughArrays change path members
        return t.put name (.array (items.dropLast ++ [.table last]))
      | _, _ => none
    | some _ => none

def add (name : Text) (value : Value) (t : Table) : Option Table :=
  if (t.get? name).isSome then none else some (t.put name value)

def addAt (throughArrays : Bool) (path : List Text) (value : Value) (t : Table) : Option Table := do
  let name ← path.getLast?
  t.within throughArrays (add name value) path.dropLast

def addTable (name : Text) (t : Table) : Option Table :=
  match t.get? name with
  | none => some (t.put name (.array [.table []]))
  | some (.array items) => some (t.put name (.array (items ++ [.table []])))
  | some _ => none

end Table

end CardLore.Toml
