import CardLore.Construction.Aspect
import CardLore.Construction.Card
import CardLore.Construction.Deck
import CardLore.Construction.Ending
import CardLore.Construction.Legacy
import CardLore.Construction.Verb
import CardLore.Statement.Parser

namespace CardLore.Parser

-- `[hidden] aspect <id> <label> <description> [-> <aspect>] { … }`
def aspect : Parser Component := do
  let hidden ← tryKeyword "hidden"
  keyword "aspect"
  let id ← key
  let label ← string
  let description ← string
  let decaysTo ← after? "->" key
  let statements ← block (located setClause) [located induceClause, located xtriggerClause]
  return .aspect (← construct (Aspect.build { id, label, description, hidden, decaysTo } statements))

-- The lifetime of a card, or what it decays to with or without a lifetime.
def cardDecay : Parser (Option Key × Option Int) := do
  match ← attempt unsigned with
  | some lifetime => return (none, some lifetime)
  | none =>
    match ← attempt key with
    | none => fail "a decay target or lifetime"
    | some target => return (some target, (← attempt unsigned).map Int.ofNat)

-- `[hidden] card <id> <label> [<description>] [(<aspects>)] [-> <decay>] { … }`
def card : Parser Component := do
  let hidden ← tryKeyword "hidden"
  keyword "card"
  let id ← key
  let label ← string
  let description ← attempt string
  let aspects ← after? "(" (delimited (located elementAmount) ")")
  let decay ← after? "->" cardDecay
  let (decaysTo, lifetime) := decay.getD (none, none)
  let statements ← block (located setClause)
    [located induceClause, located uniqueClause, located cardSlotClause, located xtriggerClause]
  let signature := { id, label, description := description.getD [], hidden, decaysTo, lifetime }
  return .card (← construct (Card.build signature (aspects.getD []) statements))

-- `deck <id> [<label> [<description>]] { … }`
def deck : Parser Component := do
  keyword "deck"
  let id ← key
  let label ← attempt string
  let description ← if label.isSome then attempt string else pure none
  let entries ← block (located defaultEntry) [located (deckCard false)]
  let signature := { id, label := label.getD [], description := description.getD [] }
  return .deck (← construct (Deck.build signature entries))

-- `verb <id> <label> <description> [(<slot>)] [{ … }]`
def verb : Parser Component := do
  keyword "verb"
  let id ← key
  let label ← string
  let description ← string
  let slot ← after? "(" (free do
    let slot ← slot
    symbol ")"
    return slot)
  let statements ← if ← lookingAt "\x7b" then block (located setClause) [] else pure []
  return .verb (← construct (Verb.build { id, label, description, slot } statements))

-- `recipe <id> <verb> <label> [<description> [<end description>]] { … }`
def recipe : Parser Component := do
  keyword "recipe"
  let id ← key
  let verb ← key
  let label ← string
  let description ← attempt string
  let endDescription ← if description.isSome then attempt string else pure none
  let statements ← block (located setClause)
    [located requireClause, located quantityClause, located mutateClause,
      located (referenceClause "ending"), located branchClause, located recipeSlotClause]
  let signature :=
    { id, verb, label, description := description.getD []
      endDescription := endDescription.getD [] }
  return .recipe (← construct (Recipe.build signature statements))

-- `legacy <id> <label> <description> [<start description>] { … }`
def legacy : Parser Component := do
  keyword "legacy"
  let id ← key
  let label ← string
  let description ← string
  let startDescription ← attempt string
  let statements ← block (located setClause)
    [located (referenceClause "verb"), located (referenceClause "ending"),
      located (referenceClause "status"), located (referenceClause "exclude"),
      located startingCardClause]
  let signature := { id, label, description, startDescription := startDescription.getD [] }
  return .legacy (← construct (Legacy.build signature statements))

-- `ending <id> <label> <description> { <members> }`
def ending : Parser Component := do
  keyword "ending"
  let id ← key
  let label ← string
  let description ← string
  if ← lookingAt "\x7b" then
    let body ← located literal
    return .ending (← construct (Ending.build id label description body.value body.span))
  else fail "'\x7b'"

def component : Parser Component :=
  choice aspect [card, deck, verb, recipe, legacy, ending]

end CardLore.Parser
