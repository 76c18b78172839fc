import CardLore.Parser.Token

namespace CardLore.Parser

variable {α : Type}

-- The items after those in `seen`, at most `bound` of them. Each takes at least one character, so
-- the bound is not reached.
def delimitedFrom (item : List α → Parser α) (close : String) : (bound : Nat) → List α → Parser (List α)
  | 0, _ => stop .tooDeep
  | bound + 1, seen => do
    let value ← item seen
    let seen := seen ++ [value]
    if ← trySymbol close then return seen
    else
      symbol ","
      delimitedFrom item close bound seen

-- The items of a list whose opening symbol is read already. An item may depend on the ones before
-- it.
def delimitedWith (item : List α → Parser α) (close : String) : Parser (List α) := free do
  if ← trySymbol close then return []
  else fun ctx s => delimitedFrom item close (s.rest.length + 1) [] ctx s

def delimited (item : Parser α) (close : String) : Parser (List α) :=
  delimitedWith (fun _ => item) close

end CardLore.Parser
