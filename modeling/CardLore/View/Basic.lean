import CardLore.Key
import CardLore.Literal.Display
import CardLore.Probability
import CardLore.Source.Span

namespace CardLore

-- A value as others see it. A member of a closed list has the name of its type, its own name and
-- its word. The facts of a record follow from its fields, and are neither displayed nor dumped.
inductive View where
  | nothing
  | bool (value : Bool)
  | int (value : Int)
  | float (value : Float)
  | text (value : Text)
  | key (value : Key)
  | chance (value : Probability)
  | member (type name word : String)
  | span (value : Span)
  | list (items : List View)
  | pair (first second : View)
  | map (entries : List (Text × View))
  | record (name : String) (fields : List (String × View)) (facts : List (String × Bool) := [])

namespace View

mutual

def ofLiteral : Literal → View
  | .null => nothing
  | .bool b => bool b
  | .int n => int n
  | .float x => float x
  | .string t => text t
  | .array items => list (ofLiterals items)
  | .object members => map (ofMembers members)

def ofLiterals : List Literal → List View
  | [] => []
  | value :: rest => ofLiteral value :: ofLiterals rest

def ofMembers : List (Text × Literal) → List (Text × View)
  | [] => []
  | (name, value) :: rest => (name, ofLiteral value) :: ofMembers rest

end

def ofOption {α : Type} (f : α → View) : Option α → View
  | some value => f value
  | none => nothing

def ofList {α : Type} (f : α → View) (values : List α) : View :=
  list (values.map f)

def ofEntries {α : Type} (f : α → View) (entries : List (Key × α)) : View :=
  map (entries.map fun (k, value) => (k.text, f value))

mutual

def display : View → Text
  | nothing => "None"
  | bool b => Literal.display (.bool b)
  | int n => toString n
  | float x => Literal.display (.float x)
  | text t => Text.quoted t
  | key k => k.display
  | chance p => s!"Probability(value={p.value})"
  | member type name word => Text.concat ["<", type, ".", name, ": ", Text.quoted word, ">"]
  | span s => s.location
  | list items => Text.concat ["[", Text.join ", " (displayItems items), "]"]
  | pair first second => Text.concat ["(", display first, ", ", display second, ")"]
  | map entries => Text.concat ["\x7b", Text.join ", " (displayEntries entries), "\x7d"]
  | record name fields _ => Text.concat [name, "(", Text.join ", " (displayFields fields), ")"]

def displayItems : List View → List Text
  | [] => []
  | item :: rest => display item :: displayItems rest

def displayEntries : List (Text × View) → List Text
  | [] => []
  | (name, value) :: rest =>
    Text.concat [Text.quoted name, ": ", display value] :: displayEntries rest

def displayFields : List (String × View) → List Text
  | [] => []
  | (name, value) :: rest => Text.concat [name, "=", display value] :: displayFields rest

end

-- The word for the type of a plain value.
def typeName : View → String
  | nothing => "NoneType"
  | bool _ => "bool"
  | int _ => "int"
  | float _ => "float"
  | text _ => "str"
  | key _ => "DefKey"
  | chance _ => "Probability"
  | member type _ _ => type
  | span _ => "Span"
  | list _ => "list"
  | pair _ _ => "tuple"
  | map _ => "dict"
  | record name _ _ => name

def indent (depth : Nat) : Text :=
  Text.ofChars (List.replicate (2 * depth) ' ')

mutual

-- The lines of a dump. A record takes a line for its name and some for each field; fields without a
-- value, empty maps and places in the source are left out.
def dump (depth : Nat) : View → List Text
  | record name fields _ => (indent depth ++ Text.ofString name) :: dumpFields depth fields
  | chance p =>
    [indent depth ++ Text.ofString "Probability",
      indent (depth + 1) ++ Text.ofString s!"value: {p.value}"]
  | view => [Text.concat [indent depth, view.typeName, ": ", view.display]]

def dumpFields (depth : Nat) : List (String × View) → List Text
  | [] => []
  | (name, value) :: rest => dumpField depth name value ++ dumpFields depth rest

def dumpField (depth : Nat) (name : String) : View → List Text
  | nothing => []
  | span _ => []
  | list [] => [Text.concat [indent (depth + 1), name, ": []"]]
  | list items => Text.concat [indent (depth + 1), name, ":"] :: dumpItems (depth + 2) items
  | map [] => []
  | map entries => Text.concat [indent (depth + 1), name, ":"] :: dumpEntries (depth + 2) entries
  | record type fields _ =>
    [Text.concat [indent (depth + 1), name, ":"], indent (depth + 2) ++ Text.ofString type]
      ++ dumpFields (depth + 2) fields
  | chance p =>
    [Text.concat [indent (depth + 1), name, ":"], indent (depth + 2) ++ Text.ofString "Probability",
      indent (depth + 3) ++ Text.ofString s!"value: {p.value}"]
  | value => [Text.concat [indent (depth + 1), name, ": ", value.display]]

def dumpItems (depth : Nat) : List View → List Text
  | [] => []
  | item :: rest => dump depth item ++ dumpItems depth rest

def dumpEntries (depth : Nat) : List (Text × View) → List Text
  | [] => []
  | (name, value) :: rest =>
    Text.concat [indent depth, name, ": ", value.display] :: dumpEntries depth rest

end

end View

end CardLore
