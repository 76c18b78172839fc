import CardLore.Decimal.Shortest
import CardLore.Parser.Token
import CardLore.Text.Quoted
import CardLore.Toml.Basic

namespace CardLore.Toml.Value

def integerText? (n : Int) : Option Text :=
  if maxIntegerDigits < (Nat.toDigits 10 n.natAbs).length then none else some (toString n)

mutual

def display? : Value → Option Text
  | bool true => some "True"
  | bool false => some "False"
  | int n => integerText? n
  | float x => some (Decimal.standard.write x)
  | string t => some (Text.quoted t)
  | date d => some d.display
  | time t => some t.display
  | moment m => some m.display
  | array items => do
    return Text.concat ["[", Text.join ", " (← displayItems? items), "]"]
  | table members => do
    return Text.concat ["\x7b", Text.join ", " (← displayMembers? members), "\x7d"]

def displayItems? : List Value → Option (List Text)
  | [] => some []
  | item :: rest => do return (← display? item) :: (← displayItems? rest)

def displayMembers? : List (Text × Value) → Option (List Text)
  | [] => some []
  | (name, value) :: rest => do
    return Text.concat [Text.quoted name, ": ", ← display? value] :: (← displayMembers? rest)

end

-- A value as a text of its own: strings without quotes, days and times in figures.
def text? : Value → Option Text
  | string t => some t
  | date d => some d.text
  | time t => some t.text
  | moment m => some m.text
  | value => value.display?

end CardLore.Toml.Value
