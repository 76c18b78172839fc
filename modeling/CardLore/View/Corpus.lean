import CardLore.Corpus
import CardLore.View.Component

namespace CardLore

open View

def NamespaceContent.view (n : NamespaceContent) : View :=
  .record "NamespaceMeta" [
    ("components", ofList .key n.components), ("attributes", ofList Attribute.view n.attributes)]

def Corpus.view (c : Corpus) : View :=
  .record "Corpus" [
    ("attributes", ofList Attribute.view c.attributes),
    ("namespaces", ofEntries NamespaceContent.view c.namespaces),
    ("aspects", ofEntries Aspect.view c.aspects), ("cards", ofEntries Card.view c.cards),
    ("decks", ofEntries Deck.view c.decks), ("recipes", ofEntries Recipe.view c.recipes),
    ("verbs", ofEntries Verb.view c.verbs), ("legacies", ofEntries Legacy.view c.legacies),
    ("endings", ofEntries Ending.view c.endings),
    ("component_attributes", ofEntries (ofList Attribute.view) c.componentAttributes)]

end CardLore
