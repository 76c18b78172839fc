import CardLore.Decimal.Nearest
import CardLore.Literal.Basic
import CardLore.Parser.Token

namespace CardLore

structure Numeral where
  negative : Bool
  whole : List Char
  fraction : Option (List Char)
  exponent : Option Int
deriving Repr

namespace Numeral

-- A sign, if there is one, and its length.
def scanSign : List Char → Bool × Nat
  | '-' :: _ => (true, 1)
  | '+' :: _ => (false, 1)
  | _ => (false, 0)

-- The digits behind a point, if there are any.
def scanFraction? : List Char → Option (List Char)
  | '.' :: rest =>
    let digits := rest.takeWhile Char.isDigit
    if digits.isEmpty then none else some digits
  | _ => none

-- The exponent behind its mark, if there are digits, and its length with mark and sign.
def scanExponent? : List Char → Option (Int × Nat)
  | mark :: rest =>
    let (negative, signLength) := scanSign rest
    let digits := (rest.drop signLength).takeWhile Char.isDigit
    if (mark = 'e' ∨ mark = 'E') ∧ !digits.isEmpty then
      let value : Int := decimalValue digits
      some (if negative then -value else value, 1 + signLength + digits.length)
    else none
  | [] => none

def scan (cs : List Char) : Numeral × Nat :=
  let (negative, signLength) := scanSign cs
  let cs := cs.drop signLength
  let whole := cs.takeWhile Char.isDigit
  let cs := cs.drop whole.length
  let fraction := scanFraction? cs
  let fractionLength := match fraction with
    | some digits => 1 + digits.length
    | none => 0
  let cs := cs.drop fractionLength
  let (exponent, exponentLength) := match scanExponent? cs with
    | some (value, length) => (some value, length)
    | none => (none, 0)
  (⟨negative, whole, fraction, exponent⟩,
    signLength + whole.length + fractionLength + exponentLength)

def isInteger (n : Numeral) : Bool :=
  n.fraction.isNone && n.exponent.isNone

-- The value of the whole digits, of which there are at most `maxIntegerDigits`.
def integer? (n : Numeral) : Option Int :=
  if maxIntegerDigits < n.whole.length then none
  else
    let value : Int := decimalValue n.whole
    some (if n.negative then -value else value)

def float (n : Numeral) : Float :=
  let fraction := n.fraction.getD []
  let value := Decimal.nearest (decimalValue (n.whole ++ fraction))
    (n.exponent.getD 0 - fraction.length)
  if n.negative then -value else value

-- The value of a number, unless it is an integer with too many digits.
def value? (n : Numeral) : Option Literal :=
  if n.isInteger then n.integer?.map .int else some (.float n.float)

end Numeral

end CardLore
