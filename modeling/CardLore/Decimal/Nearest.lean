namespace CardLore.Decimal

def infinityBits : UInt64 := 0x7FF0000000000000

-- The whole number nearest to `num / den`, a tie going to the even one.
def divNearestEven (num den : Nat) : Nat :=
  let quotient := num / den
  let twice := 2 * (num % den)
  if twice < den then quotient
  else if twice = den ∧ quotient % 2 = 0 then quotient
  else quotient + 1

-- The exponent of the greatest power of two that is at most `num / den`.
def binaryExponent (num den : Nat) : Int :=
  let guess : Int := num.log2 - den.log2
  let reached :=
    if 0 ≤ guess then den * Nat.pow 2 guess.toNat ≤ num
    else den ≤ num * Nat.pow 2 (-guess).toNat
  if reached then guess else guess - 1

-- The bits of the double nearest to `num / den`, for a positive `num`.
-- A mantissa that rounds up to the next power of two carries into the exponent field.
def nearestBits (num den : Nat) : UInt64 :=
  let unit := max (binaryExponent num den - 52) (-1074)
  let mantissa :=
    if 0 ≤ unit then divNearestEven num (den * Nat.pow 2 unit.toNat)
    else divNearestEven (num * Nat.pow 2 (-unit).toNat) den
  let bits :=
    if mantissa < Nat.pow 2 52 then mantissa
    else (unit + 1075).toNat * Nat.pow 2 52 + (mantissa - Nat.pow 2 52)
  if bits < infinityBits.toNat then UInt64.ofNat bits else infinityBits

-- The double nearest to `digits · 10 ^ exponent`. Numbers out of range become infinite or zero
-- before any power is taken, so that a long exponent costs nothing.
def nearest (digits : Nat) (exponent : Int) : Float :=
  let magnitude : Int := (Nat.toDigits 10 digits).length + exponent
  if digits = 0 ∨ magnitude < -330 then Float.ofBits 0
  else if magnitude > 310 then Float.ofBits infinityBits
  else if 0 ≤ exponent then Float.ofBits (nearestBits (digits * Nat.pow 10 exponent.toNat) 1)
  else Float.ofBits (nearestBits digits (Nat.pow 10 (-exponent).toNat))

end CardLore.Decimal
