import CardLore.Component.Parts
import CardLore.Source.Span

namespace CardLore

-- A card of a deck, with the description that makes the deck a portal deck.
structure DeckEntry where
  card : Key
  description : Option Text
  isDefault : Bool

inductive Clause where
  | set (key : Key) (value : Literal)
  | induce (recipe : Key) (chance : Probability)
  | xtrigger (xtrigger : Xtrigger)
  | unique (group : Option Key)
  | slot (verb : Option Key) (slot : Slot)
  | entry (entry : DeckEntry)
  | require (requirement : Requirement)
  | quantity (keyword : String) (element : Key) (amount : Amount)
  | mutate (mutation : Mutation)
  | reference (keyword : String) (target : Key)
  | startingCard (card : Key) (amount : Int)
  | branch (branch : Branch)

abbrev Statement := Located Clause

end CardLore
