import CardLore.Toml.Scalar

namespace CardLore.Toml

-- Exactly `count` digits.
def fixedDigits (count : Nat) : Scan Nat := fun cs =>
  let digits := cs.take count
  if digits.length = count ∧ digits.all Char.isDigit then some (decimalValue digits, cs.drop count)
  else none

def below? (bound n : Nat) : Option (Fin bound) :=
  if h : n < bound then some ⟨n, h⟩ else none

-- Two digits of a number below a bound.
def twoDigits (bound : Nat) : Scan (Fin bound) := fun cs => do
  let (n, rest) ← fixedDigits 2 cs
  return (← below? bound n, rest)

-- The text behind a character that has to stand there.
def behind? (c : Char) : List Char → Option (List Char)
  | d :: rest => if d = c then some rest else none
  | [] => none

-- A day. One that is not in the calendar is no day.
def date : Scan Date := fun cs => do
  let (year, rest) ← fixedDigits 4 cs
  let (month, rest) ← fixedDigits 2 (← behind? '-' rest)
  let (day, rest) ← fixedDigits 2 (← behind? '-' rest)
  return (← Date.ofParts? year month day, rest)

def microsecond : Scan (Fin 1000000) := fun cs => do
  let rest ← behind? '.' cs
  let digits := rest.takeWhile Char.isDigit
  if digits.isEmpty then none
  let n ← below? 1000000 (decimalValue ((digits ++ List.replicate 5 '0').take 6))
  return (n, rest.dropWhile Char.isDigit)

def time : Scan Time := fun cs => do
  let (hour, rest) ← twoDigits 24 cs
  let (minute, rest) ← twoDigits 60 (← behind? ':' rest)
  let (second, rest) ← twoDigits 60 (← behind? ':' rest)
  let (fraction, rest) := optionally microsecond rest
  return (⟨hour, minute, second, fraction.getD Time.noFraction⟩, rest)

def offset : Scan Offset
  | 'Z' :: rest => some (.universal, rest)
  | 'z' :: rest => some (.universal, rest)
  | sign :: rest => do
    if sign ≠ '+' ∧ sign ≠ '-' then none
    let (hours, rest) ← twoDigits 24 rest
    let (minutes, rest) ← twoDigits 60 (← behind? ':' rest)
    return (.ofParts (sign = '-') hours minutes, rest)
  | [] => none

-- The time behind a day, and its offset.
def timeOfDay : Scan (Time × Option Offset)
  | mark :: rest => do
    if mark ≠ 'T' ∧ mark ≠ 't' ∧ mark ≠ ' ' then none
    let (t, rest) ← time rest
    let (o, rest) := optionally offset rest
    return ((t, o), rest)
  | [] => none

def moment : Scan Value := fun cs =>
  match date cs with
  | some (d, rest) =>
    match timeOfDay rest with
    | some ((t, o), rest) => some (.moment ⟨d, t, o⟩, rest)
    | none => some (.date d, rest)
  | none => (time cs).map fun (t, rest) => (.time t, rest)

end CardLore.Toml
