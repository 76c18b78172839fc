import CardLore.Component.Basic

namespace CardLore

structure NamespaceContent where
  components : List Key
  attributes : List Attribute

-- The merged components of a run, one collection for each kind.
structure Corpus where
  attributes : List Attribute := []
  namespaces : List (Key × NamespaceContent) := []
  aspects : List (Key × Aspect) := []
  cards : List (Key × Card) := []
  decks : List (Key × Deck) := []
  recipes : List (Key × Recipe) := []
  verbs : List (Key × Verb) := []
  legacies : List (Key × Legacy) := []
  endings : List (Key × Ending) := []
  componentAttributes : List (Key × List Attribute) := []

namespace Corpus

def collection (c : Corpus) : Kind → List (Key × Component)
  | .aspect => c.aspects.map fun (k, r) => (k, .aspect r)
  | .card => c.cards.map fun (k, r) => (k, .card r)
  | .deck => c.decks.map fun (k, r) => (k, .deck r)
  | .recipe => c.recipes.map fun (k, r) => (k, .recipe r)
  | .verb => c.verbs.map fun (k, r) => (k, .verb r)
  | .legacy => c.legacies.map fun (k, r) => (k, .legacy r)
  | .ending => c.endings.map fun (k, r) => (k, .ending r)

def components (c : Corpus) : List Component :=
  Kind.all.flatMap fun kind => (c.collection kind).map (·.2)

-- The component of any kind with a key; of several, the one of the first kind.
def get? (c : Corpus) (key : Key) : Option Component :=
  Kind.all.findSome? fun kind => (c.collection kind).lookup key

def size (c : Corpus) : Nat :=
  (Kind.all.map fun kind => (c.collection kind).length).foldl (· + ·) 0

-- The collections of the components in a list, each in the order of the list.
def ofComponents (entries : List (Key × Component)) : Corpus where
  aspects := entries.filterMap fun | (k, .aspect r) => some (k, r) | _ => none
  cards := entries.filterMap fun | (k, .card r) => some (k, r) | _ => none
  decks := entries.filterMap fun | (k, .deck r) => some (k, r) | _ => none
  recipes := entries.filterMap fun | (k, .recipe r) => some (k, r) | _ => none
  verbs := entries.filterMap fun | (k, .verb r) => some (k, r) | _ => none
  legacies := entries.filterMap fun | (k, .legacy r) => some (k, r) | _ => none
  endings := entries.filterMap fun | (k, .ending r) => some (k, r) | _ => none

end Corpus

end CardLore
