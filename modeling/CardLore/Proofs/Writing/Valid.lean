import CardLore.Construction.Card
import CardLore.Construction.Ending
import CardLore.Construction.Legacy
import CardLore.Construction.Aspect
import CardLore.Construction.Verb
import CardLore.Proofs.Writing.Printer

namespace CardLore

-- The literal holds no floating-point number and no object with two members of one name, its
-- integers are not too long, and its values nest at most `depth` deep.
inductive Literal.Fits : (depth : Nat) → Literal → Prop
  | null {depth : Nat} : Fits (depth + 1) .null
  | bool {depth : Nat} (b : Bool) : Fits (depth + 1) (.bool b)
  | int {depth : Nat} {n : Int} (h : IsInteger n) : Fits (depth + 1) (.int n)
  | string {depth : Nat} (t : Text) : Fits (depth + 1) (.string t)
  | array {depth : Nat} {items : List Literal} (h : ∀ item ∈ items, Fits depth item) :
      Fits (depth + 1) (.array items)
  | object {depth : Nat} {members : List (Text × Literal)} (hnames : (members.map (·.1)).Nodup)
      (h : ∀ m ∈ members, Fits depth m.2) : Fits (depth + 1) (.object members)

structure Attribute.Valid (limit : Nat) (a : Attribute) : Prop where
  key : a.key.Valid
  value : a.value.Fits limit

-- Counts under distinct keys.
structure ValidCounts (entries : List (Key × Int)) : Prop where
  nodup : (entries.map (·.1)).Nodup
  key : ∀ e ∈ entries, e.1.Valid
  count : ∀ e ∈ entries, IsCount e.2

structure SlotFilter.Valid (f : SlotFilter) : Prop where
  element : f.element.Valid
  amount : IsCount f.amount

structure Slot.Valid (s : Slot) : Prop where
  id : s.id.Valid
  requirements : ∀ f ∈ s.requirements, f.Valid

-- Only a mutation may have a negative amount.
structure Xtrigger.Valid (x : Xtrigger) : Prop where
  catalyst : x.catalyst.Valid
  target : x.target.Valid
  amount : IsInteger x.amount
  nonneg : x.reaction ≠ .mutate → 0 ≤ x.amount

structure Operation.Valid (o : Operation) : Prop where
  amount : IsInteger o.amount
  nonneg : o.isSet = true → 0 ≤ o.amount

-- An element that looks like a number would be read as that number.
def Threshold.Valid : Threshold → Prop
  | number n => IsInteger n
  | element key => key.Valid ∧ ¬ key.IsSignedNumber

structure Requirement.Valid (r : Requirement) : Prop where
  element : r.element.Valid
  amount : r.amount.Valid

structure Mutation.Valid (m : Mutation) : Prop where
  id : m.id.Valid
  aspect : m.aspect.Valid
  operation : m.operation.Valid

-- Only a `goto` spawns or expels, and none does both.
structure Branch.Valid (b : Branch) : Prop where
  target : b.target.Valid
  requirements : ∀ r ∈ b.requirements, r.Valid
  expel : ∀ e ∈ b.expel, ValidCounts e.elements
  plain : b.kind = .link → b.spawn = false ∧ b.expel = none
  alone : b.spawn = true → b.expel = none

-- The amounts of a quantity.
def Amount.Valid (q : Quantity) : Amount → Prop
  | count n => q.isChange = false ∧ IsCount n
  | change operation => q.isChange = true ∧ operation.Valid

structure ValidQuantity (q : Quantity) (entries : List (Key × Amount)) : Prop where
  nodup : (entries.map (·.1)).Nodup
  key : ∀ e ∈ entries, e.1.Valid
  amount : ∀ e ∈ entries, e.2.Valid q

def Clause.Valid (limit : Nat) : Clause → Prop
  | set key value => key.Valid ∧ value.Fits limit
  | induce recipe _ => recipe.Valid
  | xtrigger x => x.Valid
  | unique group => ∀ key ∈ group, key.Valid
  | slot verb s => (∀ key ∈ verb, key.Valid) ∧ s.Valid
  | entry e => e.card.Valid
  | require r => r.Valid
  | quantity word element amount => element.Valid ∧ ∃ q : Quantity, word = q.keyword ∧ amount.Valid q
  | mutate m => m.Valid
  | reference word target => word ∈ keywords ∧ target.Valid
  | startingCard card amount => card.Valid ∧ IsCount amount
  | branch b => b.Valid

-- Assignments to distinct keys that the kind does not know.
structure ValidOthers {R : Type} (limit : Nat) (fields : Fields R) (others : Others) : Prop where
  nodup : (others.map (·.1)).Nodup
  key : ∀ e ∈ others, e.1.Valid
  unsigned : ∀ e ∈ others, e.1 ∉ signatureKeys
  unknown : ∀ e ∈ others, ∀ known ∈ fields.known, Text.ofString known.1 ≠ e.1.text
  value : ∀ e ∈ others, e.2.Fits limit

structure Aspect.Valid (limit : Nat) (r : Aspect) : Prop where
  id : r.id.Valid
  induces : ∀ i ∈ r.induces, i.recipe.Valid
  decaysTo : ∀ target ∈ r.decaysTo, target.Valid
  xtriggers : ∀ x ∈ r.xtriggers, x.Valid
  others : ValidOthers limit fields r.others

-- A decay target that looks like a number would be read as a lifetime.
structure Card.Valid (limit : Nat) (r : Card) : Prop where
  id : r.id.Valid
  induces : ∀ i ∈ r.induces, i.recipe.Valid
  decaysTo : ∀ target ∈ r.decaysTo, target.Valid ∧ ¬ target.IsNumber
  aspects : ValidCounts r.aspects
  lifetime : ∀ n ∈ r.lifetime, IsCount n
  notBoth : r.unique = true → r.uniquenessGroup = none
  group : ∀ group ∈ r.uniquenessGroup, group.Valid
  slotVerbs : (r.slots.map (·.1)).Nodup
  slotVerb : ∀ e ∈ r.slots, e.1.Valid
  slotLists : ∀ e ∈ r.slots, e.2 ≠ []
  slots : ∀ e ∈ r.slots, ∀ s ∈ e.2, s.Valid
  xtriggers : ∀ x ∈ r.xtriggers, x.Valid
  others : ValidOthers limit fields r.others

structure Deck.Valid (r : Deck) : Prop where
  id : r.id.Valid
  card : ∀ e ∈ r.cards, e.1.Valid
  default : ∀ card ∈ r.default, card ∈ r.cards.map (·.1)
  portal : r.isPortalDeck = r.cards.any (·.2.isSome)

structure Verb.Valid (limit : Nat) (r : Verb) : Prop where
  id : r.id.Valid
  slot : ∀ s ∈ r.slot, s.Valid
  others : ValidOthers limit fields r.others

structure Recipe.Valid (limit : Nat) (r : Recipe) : Prop where
  id : r.id.Valid
  verb : r.verb.Valid
  warmup : IsCount r.warmup
  maxExecutions : IsCount r.maxExecutions
  requirements : ∀ requirement ∈ r.requirements, requirement.Valid
  quantities : ∀ q ∈ Quantity.all, ValidQuantity q (q.entries r)
  mutations : ∀ m ∈ r.mutations, m.Valid
  ending : ∀ target ∈ r.ending, target.Valid
  slot : ∀ s ∈ r.slot, s.Valid
  branches : ∀ b ∈ r.branches, b.Valid
  others : ValidOthers limit fields r.others

structure Legacy.Valid (limit : Nat) (r : Legacy) : Prop where
  id : r.id.Valid
  startingVerb : ∀ target ∈ r.startingVerb, target.Valid
  fromEnding : ∀ target ∈ r.fromEnding, target.Valid
  status : ∀ target ∈ r.statusBarElements, target.Valid
  statusNodup : r.statusBarElements.Nodup
  statusLength : r.statusBarElements.length ≤ maxStatusElements
  excluded : ∀ target ∈ r.excludeAfterLegacies, target.Valid
  excludedNodup : r.excludeAfterLegacies.Nodup
  startingCards : ValidCounts r.startingCards
  others : ValidOthers limit fields r.others

-- The names of an ending's other members may be any texts, as long as no two of them and no known
-- name are alike in lower case. The members are values in a value.
structure Ending.Valid (limit : Nat) (r : Ending) : Prop where
  depth : 1 < limit
  id : r.id.Valid
  nodup : (r.others.map fun e => Text.lower e.1.text).Nodup
  unknown : ∀ e ∈ r.others, Text.lower e.1.text ∉ knownNames
  value : ∀ e ∈ r.others, e.2.Fits (limit - 1)

def Component.Valid (limit : Nat) : Component → Prop
  | aspect r => r.Valid limit
  | card r => r.Valid limit
  | deck r => r.Valid
  | recipe r => r.Valid limit
  | verb r => r.Valid limit
  | legacy r => r.Valid limit
  | ending r => r.Valid limit

structure ComponentDeclaration.Valid (limit : Nat) (d : ComponentDeclaration) : Prop where
  id : d.id = d.component.id
  attributes : ∀ a ∈ d.attributes, a.Valid limit
  inherits : ∀ parent ∈ d.inherits, parent.Valid
  component : d.component.Valid limit

-- The declaration is valid, and namespaces nest less than `depth` deep in it.
inductive Declaration.Fits (limit : Nat) : (depth : Nat) → Declaration → Prop
  | scope {depth : Nat} {id : Key} {attributes : List Attribute} {body : List Declaration}
      {span : Span} (hid : id.Valid) (hattributes : ∀ a ∈ attributes, a.Valid limit)
      (hbody : ∀ d ∈ body, Fits limit (depth + 1) d) :
      Fits limit (depth + 2) (.scope id attributes body span)
  | component {depth : Nat} {d : ComponentDeclaration} (h : d.Valid limit) :
      Fits limit (depth + 1) (.component d)

-- The tree can be written down, and literals and namespaces nest no deeper in it than `limit`.
structure FileTree.Valid (limit : Nat) (t : FileTree) : Prop where
  depth : 0 < limit
  attributes : ∀ a ∈ t.attributes, a.Valid limit
  declarations : ∀ d ∈ t.declarations, d.Fits limit limit

end CardLore
