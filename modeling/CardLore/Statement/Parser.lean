import CardLore.Component.Enumeration
import CardLore.Construction.Recipe
import CardLore.Literal.Parser
import CardLore.Statement.Block

namespace CardLore.Parser

variable {α : Type}

-- The value of `p` with the text that it was read from.
def located (p : Parser α) : Parser (Located α) := do
  let start ← tokenStart
  let value ← p
  return ⟨value, ← spanFrom start⟩

-- `p` behind a symbol, if the symbol stands next.
def after? (text : String) (p : Parser α) : Parser (Option α) := do
  if ← trySymbol text then return some (← p)
  else return none

-- An amount behind a colon, or one.
def amountOrOne : Parser Int := do
  if ← trySymbol ":" then return (← unsigned)
  else return 1

-- `set <key> = <literal>`
def setClause : Parser Clause := do
  keyword "set"
  let name ← key
  symbol "="
  return .set name (← literal)

-- `induce <recipe> <percentage>`
def induceClause : Parser Clause := do
  keyword "induce"
  let recipe ← key
  return .induce recipe (← percentage)

-- A percentage, or certainty.
def chanceOrCertain : Parser Probability := do
  match ← tryPercentage with
  | some chance => return chance
  | none => return .certain

-- `spawn <card>:<n> [<percentage>]`
def spawnReaction (catalyst : Key) : Parser Xtrigger := do
  keyword "spawn"
  let target ← key
  symbol ":"
  let amount ← unsigned
  return ⟨.spawn, catalyst, target, amount, ← chanceOrCertain⟩

-- `mutate <aspect>:<n> [<percentage>]`, where the amount may have a sign.
def mutateReaction (catalyst : Key) : Parser Xtrigger := do
  keyword "mutate"
  let target ← key
  symbol ":"
  let amount ← signed
  return ⟨.mutate, catalyst, target, amount, ← chanceOrCertain⟩

-- `<card>:<n> [<percentage>]`
def transformReaction (catalyst : Key) : Parser Xtrigger := do
  let target ← key
  symbol ":"
  let amount ← unsigned
  return ⟨.transform, catalyst, target, amount, ← chanceOrCertain⟩

-- `<card> [<percentage>]`
def bareReaction (catalyst : Key) : Parser Xtrigger := do
  let target ← key
  return ⟨.transform, catalyst, target, 1, ← chanceOrCertain⟩

def reaction (catalyst : Key) : Parser Xtrigger :=
  choice (spawnReaction catalyst)
    [mutateReaction catalyst, transformReaction catalyst, bareReaction catalyst]

-- `xtrigger <catalyst> -> <reaction>`
def xtriggerClause : Parser Clause := do
  keyword "xtrigger"
  let catalyst ← key
  symbol "->"
  return .xtrigger (← reaction catalyst)

inductive SlotModifier where
  | consume
  | greedy
deriving DecidableEq, Repr

def SlotModifier.name : SlotModifier → String
  | consume => "consume"
  | greedy => "greedy"

def symbolOrKeyword (text word : String) : Parser Bool := do
  if ← trySymbol text then return true
  else tryKeyword word

-- The modifiers before a slot, each with its offset. Each takes at least one character, so the
-- bound is not reached.
def modifiersUpTo : (bound : Nat) → Parser (List (SlotModifier × Nat))
  | 0 => stop .tooDeep
  | bound + 1 => do
    let pos ← tokenStart
    if ← symbolOrKeyword "!" "consume" then return (.consume, pos) :: (← modifiersUpTo bound)
    else if ← symbolOrKeyword "?" "greedy" then return (.greedy, pos) :: (← modifiersUpTo bound)
    else return []

-- The first modifier that was given before.
def firstRepeated? (seen : List SlotModifier) :
    List (SlotModifier × Nat) → Option (SlotModifier × Nat)
  | [] => none
  | (m, pos) :: rest => if m ∈ seen then some (m, pos) else firstRepeated? (m :: seen) rest

-- `[!]<element>[:<n>]`
def slotFilter : Parser SlotFilter := do
  let kind := if ← trySymbol "!" then FilterKind.forbid else .accept
  let element ← key
  return ⟨kind, element, ← amountOrOne⟩

-- `[consume] [greedy] slot <id> <label> <description> [(<filters>)]`
def slot : Parser Slot := do
  let modifiers ← fun ctx s => modifiersUpTo (s.rest.length + 1) ctx s
  keyword "slot"
  match firstRepeated? [] modifiers with
  | some (m, pos) => refuseBetween (.repeatedModifier m.name) pos (pos + 1)
  | none =>
    let id ← key
    let label ← string
    let description ← string
    let requirements ← after? "(" (delimited slotFilter ")")
    let given (m : SlotModifier) := modifiers.any (·.1 = m)
    return { id, label, description, consumes := given .consume, greedy := given .greedy
             requirements := requirements.getD [] }

def recipeSlotClause : Parser Clause := do
  return .slot none (← slot)

-- `<verb> -> <slot>`
def cardSlotClause : Parser Clause := do
  let verb ← key
  symbol "->"
  return .slot (some verb) (← slot)

-- `unique [<group>]`
def uniqueClause : Parser Clause := do
  keyword "unique"
  return .unique (← attempt key)

-- A card of a deck with its description.
def deckCard (isDefault : Bool) : Parser DeckEntry := do
  let card ← key
  let description ← attempt string
  return { card, description, isDefault }

-- `!` or `default` before the default card of a deck.
def defaultEntry : Parser DeckEntry := do
  if ← trySymbol "!" then deckCard true
  else
    keyword "default"
    deckCard true

-- An element with its amount, as in the signature of a card and in an expulsion.
def elementAmount : Parser (Key × Int) := do
  let element ← key
  return (element, ← amountOrOne)

-- `<element>:<n>` or `<element>:<element>`
def requirementBody (kind : RequirementKind) : Parser Requirement := do
  let element ← key
  symbol ":"
  match ← attempt signed with
  | some n => return ⟨kind, element, .number n⟩
  | none => return ⟨kind, element, .element (← key)⟩

def qualifiedRequirement (kind : RequirementKind) : Parser Requirement := do
  keyword (RequirementKind.enumeration.wordFor kind)
  requirementBody kind

def requirement : Parser Requirement :=
  choice (qualifiedRequirement .table) [qualifiedRequirement .extant, requirementBody .basic]

-- `require <requirement>`
def requireClause : Parser Clause := do
  keyword "require"
  return .require (← requirement)

-- `=<n>` or an amount with or without a sign.
def operation : Parser Operation := do
  if ← trySymbol "=" then return ⟨← unsigned, true⟩
  else return ⟨← signed, false⟩

def quantityWord : Parser Quantity :=
  let word (q : Quantity) : Parser Quantity := do
    keyword q.keyword
    return q
  choice (word .effect) [word .aspect, word .purge, word .draw, word .halt, word .delete]

-- `<quantity> <element>:<amount>`
def quantityClause : Parser Clause := do
  let q ← quantityWord
  let element ← key
  symbol ":"
  if q.isChange then return .quantity q.keyword element (.change (← operation))
  else return .quantity q.keyword element (.count (← unsigned))

-- `mutate <target> <aspect>:<amount>`
def mutateClause : Parser Clause := do
  keyword "mutate"
  let id ← key
  let aspect ← key
  symbol ":"
  return .mutate ⟨id, aspect, ← operation⟩

def referenceClause (word : String) : Parser Clause := do
  keyword word
  return .reference word (← key)

def branchKind : Parser BranchKind := do
  if ← tryKeyword "link" then return .link
  else
    keyword "goto"
    return .goto

-- What may follow a `goto`: a spawn, or an expulsion.
def gotoTail : Parser (Bool × Option Expulsion) := do
  if ← tryKeyword "spawn" then return (true, none)
  else if ← tryKeyword "expel" then
    symbol "("
    let entries ← delimited (located elementAmount) ")"
    return (false, some (← construct (Expulsion.build entries)))
  else return (false, none)

-- `link` or `goto`, with a target, a chance and requirements.
def branchClause : Parser Clause := do
  let kind ← branchKind
  let target ← key
  let chance ← tryPercentage
  let requirements ← after? "(" (delimited requirement ")")
  let (spawn, expel) ← match kind with
    | .goto => gotoTail
    | .link => pure (false, none)
  return .branch { kind, target, chance, requirements := requirements.getD [], spawn, expel }

-- `card <card>[:<n>]`
def startingCardClause : Parser Clause := do
  keyword "card"
  let card ← key
  return .startingCard card (← amountOrOne)

end CardLore.Parser
