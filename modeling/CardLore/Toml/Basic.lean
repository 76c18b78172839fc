import CardLore.Calendar

namespace CardLore.Toml

inductive Value where
  | bool (value : Bool)
  | int (value : Int)
  | float (value : Float)
  | string (value : Text)
  | date (value : Date)
  | time (value : Time)
  | moment (value : Moment)
  | array (items : List Value)
  | table (members : List (Text × Value))
deriving Inhabited

abbrev Table := List (Text × Value)

-- Values that hold others.
def Value.isComposite : Value → Bool
  | array _ => true
  | table _ => true
  | _ => false

inductive Fault where
  | malformed
  | integerTooLong
  | tooDeep
deriving DecidableEq, Repr

-- Takes what it recognizes off the front of a text; nothing if it is not there.
abbrev Scan (α : Type) := List Char → Option (α × List Char)

abbrev Reader (α : Type) := List Char → Except Fault (α × List Char)

-- What is not recognized is malformed.
def orMalformed {α : Type} : Option α → Except Fault α
  | some a => .ok a
  | none => .error .malformed

end CardLore.Toml
