import CardLore.Key
import CardLore.Literal.Basic
import CardLore.Probability

namespace CardLore

structure Attribute where
  key : Key
  value : Literal
deriving Inhabited

structure Induction where
  recipe : Key
  chance : Probability
deriving DecidableEq, Repr, Inhabited

inductive FilterKind where
  | accept
  | forbid
deriving DecidableEq, Repr, Inhabited

structure SlotFilter where
  kind : FilterKind
  element : Key
  amount : Int
deriving DecidableEq, Repr, Inhabited

structure Slot where
  id : Key
  label : Text
  description : Text
  consumes : Bool
  greedy : Bool
  requirements : List SlotFilter
deriving DecidableEq, Repr, Inhabited

-- What a catalyst does: it turns into the target, lets copies of it appear, or gains it as an
-- aspect.
inductive Reaction where
  | transform
  | spawn
  | mutate
deriving DecidableEq, Repr, Inhabited

structure Xtrigger where
  reaction : Reaction
  catalyst : Key
  target : Key
  amount : Int
  chance : Probability
deriving DecidableEq, Repr, Inhabited

-- A change of a quantity: it is set to an amount, or an amount is added to it.
structure Operation where
  amount : Int
  isSet : Bool
deriving DecidableEq, Repr, Inhabited

-- How much a recipe moves: a plain count, or a change of what is there.
inductive Amount where
  | count (n : Int)
  | change (operation : Operation)
deriving DecidableEq, Repr, Inhabited

inductive RequirementKind where
  | basic
  | table
  | extant
deriving DecidableEq, Repr, Inhabited

-- How much is required: a number, or as much as there is of another element.
inductive Threshold where
  | number (n : Int)
  | element (key : Key)
deriving DecidableEq, Repr, Inhabited

structure Requirement where
  kind : RequirementKind
  element : Key
  amount : Threshold
deriving DecidableEq, Repr, Inhabited

structure Mutation where
  id : Key
  aspect : Key
  operation : Operation
deriving DecidableEq, Repr, Inhabited

structure Expulsion where
  elements : List (Key × Int)
deriving DecidableEq, Repr, Inhabited

inductive BranchKind where
  | link
  | goto
deriving DecidableEq, Repr, Inhabited

structure Branch where
  kind : BranchKind
  target : Key
  chance : Option Probability
  requirements : List Requirement
  spawn : Bool
  expel : Option Expulsion
deriving DecidableEq, Repr, Inhabited

end CardLore
