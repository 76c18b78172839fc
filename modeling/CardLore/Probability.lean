import CardLore.Literal.Display

namespace CardLore

structure Probability where
  value : Nat
  le_hundred : value ≤ 100
deriving DecidableEq, Repr

namespace Probability

-- What always happens.
def certain : Probability := ⟨100, by omega⟩

instance : Inhabited Probability := ⟨certain⟩

def ofInt? (n : Int) : Option Probability :=
  if h : 0 ≤ n ∧ n ≤ 100 then some ⟨n.toNat, by omega⟩ else none

-- The message for a value that is no probability.
def refusal (value : Literal) : Text :=
  Text.concat
    ["a probability must be an integer in the range 0..=100, got ", value.display]

-- Only whole numbers from 0 to 100 are probabilities; truth values are none.
def ofLiteral (value : Literal) : Except Text Probability :=
  match value with
  | .int n => match ofInt? n with
    | some p => .ok p
    | none => .error (refusal value)
  | _ => .error (refusal value)

def toText (p : Probability) : String :=
  s!"{p.value}%"

def isCertain (p : Probability) : Bool :=
  p.value == 100

end Probability

end CardLore
