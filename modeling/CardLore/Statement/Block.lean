import CardLore.Parser.Delimited

namespace CardLore.Parser

variable {α : Type}

-- The text behind a statement ends it.
def endsStatement : List Char → Bool
  | [] => true
  | c :: _ => Trivia.isLineEnd c || c == '}'

-- Runs `p` and asks for the end of the statement behind it.
def terminated (p : Parser α) : Parser α := do
  let value ← p
  let _ ← skipTriviaWith false
  if endsStatement (← ahead) then return value
  else fail "end of statement"

-- At most `bound` statements. Each takes at least one character, so the bound is not reached.
def statementsUpTo (statement : Parser α) : (bound : Nat) → Parser (List α)
  | 0 => stop .tooDeep
  | bound + 1 => do
    if ← lookingAt "\x7d" then return []
    else
      let first ← statement
      if ← lookingAt "\x7d" then return [first]
      else
        newline
        return first :: (← statementsUpTo statement bound)

-- A block of statements, each of which is the first alternative that matches up to its end.
def block (first : Parser α) (others : List (Parser α)) : Parser (List α) := do
  symbol "\x7b"
  let statement := choice (terminated first) (others.map terminated)
  let statements ← inline do
    let _ ← skipTriviaWith true
    fun ctx s => statementsUpTo statement (s.rest.length + 1) ctx s
  symbol "\x7d"
  return statements

end CardLore.Parser
