import CardLore.Construction.Draft

namespace CardLore.Deck

-- A deck under construction, with the place of its default card.
structure Progress where
  deck : Deck
  defaultAt : Option Span

-- An entry behind the cards that the deck has already.
def addCard (deck : Deck) (entry : DeckEntry) : Deck :=
  { deck with
    default := if entry.isDefault then some entry.card else deck.default
    cards := deck.cards ++ [(entry.card, entry.description)]
    isPortalDeck := deck.isPortalDeck || entry.description.isSome }

def addEntry (p : Progress) (entry : Located DeckEntry) : Except Refusal Progress :=
  match entry.value.isDefault, p.defaultAt with
  | true, some first => .error ⟨.secondDefault first, entry.span⟩
  | true, none => .ok ⟨addCard p.deck entry.value, some entry.span⟩
  | false, defaultAt => .ok ⟨addCard p.deck entry.value, defaultAt⟩

def build (signature : Deck) (entries : List (Located DeckEntry)) : Except Refusal Deck := do
  return (← entries.foldlM addEntry ⟨signature, none⟩).deck

end CardLore.Deck
