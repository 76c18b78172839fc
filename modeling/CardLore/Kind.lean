namespace CardLore

inductive Kind where
  | aspect
  | card
  | deck
  | recipe
  | verb
  | legacy
  | ending
deriving DecidableEq, Repr, Inhabited

namespace Kind

-- All kinds, in the order in which a corpus lists its collections.
def all : List Kind := [aspect, card, deck, recipe, verb, legacy, ending]

-- The word that declares a component of the kind.
def name : Kind → String
  | aspect => "aspect"
  | card => "card"
  | deck => "deck"
  | recipe => "recipe"
  | verb => "verb"
  | legacy => "legacy"
  | ending => "ending"

-- The name of the collection that holds the kind.
def collection : Kind → String
  | aspect => "aspects"
  | card => "cards"
  | deck => "decks"
  | recipe => "recipes"
  | verb => "verbs"
  | legacy => "legacies"
  | ending => "endings"

def ofCollection? (name : String) : Option Kind :=
  all.find? (·.collection == name)

end Kind

end CardLore
