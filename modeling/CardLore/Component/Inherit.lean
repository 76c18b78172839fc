import CardLore.Component.Basic

namespace CardLore

-- The child's entries, or the parent's if it has none.
def inheritEntries {α : Type} (own parent : List α) : List α :=
  if own.isEmpty then parent else own

def inheritKey (own parent : Key) : Key :=
  if own.isEmpty then parent else own

-- The child's value, or the parent's if the child's is the default.
def inheritValue {α : Type} [DecidableEq α] (default own parent : α) : α :=
  if own = default then parent else own

namespace Aspect

def inherit (child parent : Aspect) : Aspect where
  id := child.id
  label := inheritEntries child.label parent.label
  description := inheritEntries child.description parent.description
  icon := child.icon.or parent.icon
  verbicon := child.verbicon.or parent.verbicon
  induces := child.induces.or parent.induces
  decaysTo := child.decaysTo.or parent.decaysTo
  hidden := child.hidden || parent.hidden
  xtriggers := inheritEntries child.xtriggers parent.xtriggers
  others := inheritEntries child.others parent.others

def gaps (r : Aspect) : List Bool :=
  [r.label.isEmpty, r.description.isEmpty, r.icon.isNone, r.verbicon.isNone, r.induces.isNone,
    r.decaysTo.isNone, !r.hidden, r.xtriggers.isEmpty, r.others.isEmpty]

end Aspect

namespace Card

-- The card neither is unique nor belongs to a uniqueness group.
def isOpen (r : Card) : Bool :=
  !r.unique && r.uniquenessGroup.isNone

def inherit (child parent : Card) : Card where
  id := child.id
  label := inheritEntries child.label parent.label
  description := inheritEntries child.description parent.description
  icon := child.icon.or parent.icon
  verbicon := child.verbicon.or parent.verbicon
  induces := child.induces.or parent.induces
  decaysTo := child.decaysTo.or parent.decaysTo
  hidden := child.hidden || parent.hidden
  aspects := inheritEntries child.aspects parent.aspects
  lifetime := child.lifetime.or parent.lifetime
  resaturate := child.resaturate || parent.resaturate
  unique := if child.isOpen then parent.unique else child.unique
  uniquenessGroup := if child.isOpen then parent.uniquenessGroup else child.uniquenessGroup
  slots := inheritEntries child.slots parent.slots
  xtriggers := inheritEntries child.xtriggers parent.xtriggers
  others := inheritEntries child.others parent.others

def gaps (r : Card) : List Bool :=
  [r.label.isEmpty, r.description.isEmpty, r.icon.isNone, r.verbicon.isNone, r.induces.isNone,
    r.decaysTo.isNone, !r.hidden, r.aspects.isEmpty, r.lifetime.isNone, !r.resaturate, r.isOpen,
    r.slots.isEmpty, r.xtriggers.isEmpty, r.others.isEmpty]

end Card

namespace Deck

def inherit (child parent : Deck) : Deck where
  id := child.id
  label := inheritEntries child.label parent.label
  description := inheritEntries child.description parent.description
  default := child.default.or parent.default
  cards := inheritEntries child.cards parent.cards
  isPortalDeck := child.isPortalDeck || parent.isPortalDeck

def gaps (r : Deck) : List Bool :=
  [r.label.isEmpty, r.description.isEmpty, r.default.isNone, r.cards.isEmpty, !r.isPortalDeck]

end Deck

namespace Verb

def inherit (child parent : Verb) : Verb where
  id := child.id
  label := inheritEntries child.label parent.label
  description := inheritEntries child.description parent.description
  slot := child.slot.or parent.slot
  others := inheritEntries child.others parent.others

def gaps (r : Verb) : List Bool :=
  [r.label.isEmpty, r.description.isEmpty, r.slot.isNone, r.others.isEmpty]

end Verb

namespace Recipe

def inherit (child parent : Recipe) : Recipe where
  id := child.id
  verb := inheritKey child.verb parent.verb
  label := inheritEntries child.label parent.label
  description := inheritEntries child.description parent.description
  endDescription := inheritEntries child.endDescription parent.endDescription
  burn := child.burn.or parent.burn
  portal := child.portal.or parent.portal
  requirements := inheritEntries child.requirements parent.requirements
  maxExecutions := inheritValue 0 child.maxExecutions parent.maxExecutions
  warmup := inheritValue 0 child.warmup parent.warmup
  craftable := child.craftable || parent.craftable
  hintOnly := child.hintOnly || parent.hintOnly
  slot := child.slot.or parent.slot
  effects := inheritEntries child.effects parent.effects
  purge := inheritEntries child.purge parent.purge
  aspects := inheritEntries child.aspects parent.aspects
  draws := inheritEntries child.draws parent.draws
  mutations := inheritEntries child.mutations parent.mutations
  halt := inheritEntries child.halt parent.halt
  delete := inheritEntries child.delete parent.delete
  ending := child.ending.or parent.ending
  style := inheritValue .none child.style parent.style
  branches := inheritEntries child.branches parent.branches
  others := inheritEntries child.others parent.others

def gaps (r : Recipe) : List Bool :=
  [r.verb.isEmpty, r.label.isEmpty, r.description.isEmpty, r.endDescription.isEmpty, r.burn.isNone,
    r.portal.isNone, r.requirements.isEmpty, r.maxExecutions = 0, r.warmup = 0, !r.craftable,
    !r.hintOnly, r.slot.isNone, r.effects.isEmpty, r.purge.isEmpty, r.aspects.isEmpty,
    r.draws.isEmpty, r.mutations.isEmpty, r.halt.isEmpty, r.delete.isEmpty, r.ending.isNone,
    r.style = .none, r.branches.isEmpty, r.others.isEmpty]

end Recipe

namespace Legacy

-- A legacy is available without a matching ending by default.
def inherit (child parent : Legacy) : Legacy where
  id := child.id
  label := inheritEntries child.label parent.label
  description := inheritEntries child.description parent.description
  startDescription := inheritEntries child.startDescription parent.startDescription
  image := inheritEntries child.image parent.image
  startingVerb := child.startingVerb.or parent.startingVerb
  startingCards := inheritEntries child.startingCards parent.startingCards
  statusBarElements := inheritEntries child.statusBarElements parent.statusBarElements
  excludeAfterLegacies := inheritEntries child.excludeAfterLegacies parent.excludeAfterLegacies
  newStart := child.newStart || parent.newStart
  fromEnding := child.fromEnding.or parent.fromEnding
  availableWithoutEndingMatch :=
    child.availableWithoutEndingMatch && parent.availableWithoutEndingMatch
  others := inheritEntries child.others parent.others

def gaps (r : Legacy) : List Bool :=
  [r.label.isEmpty, r.description.isEmpty, r.startDescription.isEmpty, r.image.isEmpty,
    r.startingVerb.isNone, r.startingCards.isEmpty, r.statusBarElements.isEmpty,
    r.excludeAfterLegacies.isEmpty, !r.newStart, r.fromEnding.isNone,
    r.availableWithoutEndingMatch, r.others.isEmpty]

end Legacy

namespace Ending

def inherit (child parent : Ending) : Ending where
  id := child.id
  label := inheritEntries child.label parent.label
  description := inheritEntries child.description parent.description
  image := inheritEntries child.image parent.image
  music := inheritValue .grand child.music parent.music
  animation := inheritValue .dramaticLight child.animation parent.animation
  achievement := inheritValue noAchievement child.achievement parent.achievement
  others := inheritEntries child.others parent.others

def gaps (r : Ending) : List Bool :=
  [r.label.isEmpty, r.description.isEmpty, r.image.isEmpty, r.music = .grand,
    r.animation = .dramaticLight, r.achievement = noAchievement, r.others.isEmpty]

end Ending

namespace Component

-- The child with every field that it left open filled from its parent. Components of different
-- kinds give each other nothing.
def inherit : Component → Component → Component
  | aspect c, aspect p => aspect (c.inherit p)
  | card c, card p => card (c.inherit p)
  | deck c, deck p => deck (c.inherit p)
  | recipe c, recipe p => recipe (c.inherit p)
  | verb c, verb p => verb (c.inherit p)
  | legacy c, legacy p => legacy (c.inherit p)
  | ending c, ending p => ending (c.inherit p)
  | child, _ => child

def gaps : Component → List Bool
  | aspect r => r.gaps
  | card r => r.gaps
  | deck r => r.gaps
  | recipe r => r.gaps
  | verb r => r.gaps
  | legacy r => r.gaps
  | ending r => r.gaps

def gains (child parent : Component) : Bool :=
  (child.gaps.zip parent.gaps).any fun (own, inherited) => own && !inherited

end Component

end CardLore
