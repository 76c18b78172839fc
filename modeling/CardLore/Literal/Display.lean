import CardLore.Decimal.Shortest
import CardLore.Literal.Basic
import CardLore.Text.Quoted

namespace CardLore.Literal

mutual

def display : Literal → Text
  | null => "None"
  | bool true => "True"
  | bool false => "False"
  | int n => toString n
  | float x => Decimal.standard.write x
  | string t => Text.quoted t
  | array items => Text.concat ["[", Text.join ", " (displayItems items), "]"]
  | object members => Text.concat ["\x7b", Text.join ", " (displayMembers members), "\x7d"]

def displayItems : List Literal → List Text
  | [] => []
  | item :: rest => display item :: displayItems rest

def displayMembers : List (Text × Literal) → List Text
  | [] => []
  | (name, value) :: rest =>
    Text.concat [Text.quoted name, ": ", display value] :: displayMembers rest

end

end CardLore.Literal
