namespace CardLore.Decimal

-- The number `digits · 10 ^ exponent`.
structure Digits where
  digits : Nat
  exponent : Int
deriving DecidableEq, Repr

-- The reals that round to one double, all over one denominator; the ends belong to them iff
-- `closed`.
structure RoundingInterval where
  low : Nat
  value : Nat
  high : Nat
  denominator : Nat
  closed : Bool

-- The interval of a positive finite double, from its bits without the sign. Below a power of two
-- the neighbours lie twice as close.
def RoundingInterval.ofBits (bits : Nat) : RoundingInterval :=
  let field := bits / Nat.pow 2 52
  let fraction := bits % Nat.pow 2 52
  let mantissa := if field = 0 then fraction else fraction + Nat.pow 2 52
  -- the number is `4 * mantissa` units of `2 ^ unit`
  let unit : Int := (max field 1 : Nat) - 1077
  let below := if fraction = 0 ∧ 1 < field then 1 else 2
  let scale := Nat.pow 2 unit.toNat
  { low := (4 * mantissa - below) * scale
    value := 4 * mantissa * scale
    high := (4 * mantissa + 2) * scale
    denominator := Nat.pow 2 (-unit).toNat
    closed := mantissa % 2 == 0 }

-- The place of the first decimal digit of `num / den`, counted from the units.
def leadingPlace (num den : Nat) : Int :=
  if den ≤ num then ((Nat.toDigits 10 (num / den)).length : Int) - 1
  else
    let quotient := (den + num - 1) / num
    let zeros : Int := if quotient ≤ 1 then 0 else (Nat.toDigits 10 (quotient - 1)).length
    (-zeros)

namespace RoundingInterval

-- Whether `digits · 10 ^ exponent` rounds to the double.
def contains (i : RoundingInterval) (digits : Nat) (exponent : Int) : Bool :=
  let point := digits * Nat.pow 10 exponent.toNat * i.denominator
  let scale := Nat.pow 10 (-exponent).toNat
  if i.closed then i.low * scale ≤ point && point ≤ i.high * scale
  else i.low * scale < point && point < i.high * scale

-- The neighbours of the number on the grid of multiples of `10 ^ exponent` that read back, the
-- nearer one first.
def onGrid? (i : RoundingInterval) (exponent : Int) : Option Nat :=
  let num := i.value * Nat.pow 10 (-exponent).toNat
  let den := i.denominator * Nat.pow 10 exponent.toNat
  let below := num / den
  let twice := 2 * (num % den)
  let nearer :=
    if twice < den ∨ (twice = den ∧ below % 2 = 0) then [below, below + 1] else [below + 1, below]
  nearer.find? (i.contains · exponent)

-- Tries the grids from `count` digits on, at most `tries` of them.
def shortestFrom (i : RoundingInterval) (place : Int) : (tries count : Nat) → Digits
  | 0, count => ⟨i.value / i.denominator, place - count + 1⟩
  | tries + 1, count =>
    let exponent := place - count + 1
    match i.onGrid? exponent with
    | some digits => ⟨digits, exponent⟩
    | none => shortestFrom i place tries (count + 1)

end RoundingInterval

-- The shortest digits of a positive finite double, given by its bits.
def shortest (bits : Nat) : Digits :=
  let i := RoundingInterval.ofBits bits
  i.shortestFrom (leadingPlace i.value i.denominator) 17 1

-- The digits without trailing zeros, and the place of the first one.
def Digits.significant (d : Digits) : List Char × Int :=
  let all := Nat.toDigits 10 d.digits
  ((all.reverse.dropWhile (· == '0')).reverse, d.exponent + all.length - 1)

-- How numbers are written: by positions while the first digit stands at a place from `lowestPlace`
-- up to, and excluding, `highestPlace`, and with an exponent otherwise.
structure NumberFormat where
  lowestPlace : Int
  highestPlace : Int
  exponentWidth : Nat

-- Positions from 10 ^ -4 up to 10 ^ 16, exponents in two digits.
def standard : NumberFormat := ⟨-4, 16, 2⟩

namespace NumberFormat

-- Positional writing keeps at least one digit on each side of the point.
def positional (digits : List Char) (place : Int) : String :=
  if place < 0 then
    "0." ++ String.ofList (List.replicate (-place - 1).toNat '0' ++ digits)
  else
    let whole := place.toNat + 1
    let fraction := digits.drop whole
    let padded := digits.take whole ++ List.replicate (whole - digits.length) '0'
    String.ofList padded ++ "." ++ (if fraction.isEmpty then "0" else String.ofList fraction)

def scientific (format : NumberFormat) (digits : List Char) (place : Int) : String :=
  let fraction := digits.drop 1
  let exponent := Nat.toDigits 10 place.natAbs
  String.ofList (digits.take 1)
    ++ (if fraction.isEmpty then "" else "." ++ String.ofList fraction)
    ++ "e" ++ (if place < 0 then "-" else "+")
    ++ String.ofList (List.replicate (format.exponentWidth - exponent.length) '0' ++ exponent)

def write (format : NumberFormat) (x : Float) : String :=
  let bits := x.toBits.toNat
  let magnitude := bits % Nat.pow 2 63
  let sign := if bits < Nat.pow 2 63 then "" else "-"
  if magnitude > 0x7FF0000000000000 then "nan"
  else if magnitude = 0x7FF0000000000000 then sign ++ "inf"
  else if magnitude = 0 then sign ++ "0.0"
  else
    let (digits, place) := (shortest magnitude).significant
    sign ++ (if format.lowestPlace ≤ place ∧ place < format.highestPlace then positional digits place
      else format.scientific digits place)

end NumberFormat

end CardLore.Decimal
