import CardLore.Component.Parts
import CardLore.Kind

namespace CardLore

-- Values that `set` gives to keys that a kind does not know, in the order of assignment.
abbrev Others := List (Key × Literal)

structure Aspect where
  id : Key
  label : Text
  description : Text
  icon : Option Text := none
  verbicon : Option Text := none
  induces : Option Induction := none
  decaysTo : Option Key := none
  hidden : Bool := false
  xtriggers : List Xtrigger := []
  others : Others := []

structure Card where
  id : Key
  label : Text
  description : Text := []
  icon : Option Text := none
  verbicon : Option Text := none
  induces : Option Induction := none
  decaysTo : Option Key := none
  hidden : Bool := false
  aspects : List (Key × Int) := []
  lifetime : Option Int := none
  resaturate : Bool := false
  unique : Bool := false
  uniquenessGroup : Option Key := none
  slots : List (Key × List Slot) := []
  xtriggers : List Xtrigger := []
  others : Others := []

structure Deck where
  id : Key
  label : Text := []
  description : Text := []
  default : Option Key := none
  cards : List (Key × Option Text) := []
  isPortalDeck : Bool := false

-- A deck without a default card is shuffled anew when it runs out.
def Deck.resetsOnExhaustion (deck : Deck) : Bool :=
  deck.default.isNone

structure Verb where
  id : Key
  label : Text
  description : Text
  slot : Option Slot := none
  others : Others := []

inductive WarmupStyle where
  | none
  | grand
  | melancholy
  | pale
  | vile
  | important
deriving DecidableEq, Repr, Inhabited

structure Recipe where
  id : Key
  verb : Key
  label : Text
  description : Text := []
  endDescription : Text := []
  burn : Option Text := .none
  portal : Option Text := .none
  requirements : List Requirement := []
  maxExecutions : Int := 0
  warmup : Int := 0
  craftable : Bool := false
  hintOnly : Bool := false
  slot : Option Slot := .none
  effects : List (Key × Amount) := []
  purge : List (Key × Amount) := []
  aspects : List (Key × Amount) := []
  draws : List (Key × Amount) := []
  mutations : List Mutation := []
  halt : List (Key × Amount) := []
  delete : List (Key × Amount) := []
  ending : Option Key := .none
  style : WarmupStyle := .none
  branches : List Branch := []
  others : Others := []

structure Legacy where
  id : Key
  label : Text
  description : Text
  startDescription : Text := []
  image : Text := []
  startingVerb : Option Key := none
  startingCards : List (Key × Int) := []
  statusBarElements : List Key := []
  excludeAfterLegacies : List Key := []
  newStart : Bool := false
  fromEnding : Option Key := none
  availableWithoutEndingMatch : Bool := true
  others : Others := []

inductive EndingMusic where
  | grand
  | melancholy
  | vile
deriving DecidableEq, Repr, Inhabited

inductive EndingAnimation where
  | dramaticLight
  | dramaticLightCool
  | dramaticLightEvil
deriving DecidableEq, Repr, Inhabited

-- The achievement of an ending that names none.
def noAchievement : Text := "XXX"

structure Ending where
  id : Key
  label : Text
  description : Text
  image : Text
  music : EndingMusic := .grand
  animation : EndingAnimation := .dramaticLight
  achievement : Text := noAchievement
  others : Others := []

inductive Component where
  | aspect (record : Aspect)
  | card (record : Card)
  | deck (record : Deck)
  | recipe (record : Recipe)
  | verb (record : Verb)
  | legacy (record : Legacy)
  | ending (record : Ending)

namespace Component

def kind : Component → Kind
  | aspect _ => .aspect
  | card _ => .card
  | deck _ => .deck
  | recipe _ => .recipe
  | verb _ => .verb
  | legacy _ => .legacy
  | ending _ => .ending

def id : Component → Key
  | aspect r => r.id
  | card r => r.id
  | deck r => r.id
  | recipe r => r.id
  | verb r => r.id
  | legacy r => r.id
  | ending r => r.id

def withId (key : Key) : Component → Component
  | aspect r => .aspect { r with id := key }
  | card r => .card { r with id := key }
  | deck r => .deck { r with id := key }
  | recipe r => .recipe { r with id := key }
  | verb r => .verb { r with id := key }
  | legacy r => .legacy { r with id := key }
  | ending r => .ending { r with id := key }

end Component

end CardLore
