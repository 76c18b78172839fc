import CardLore.Literal.Number
import CardLore.Text.Blank
import CardLore.Text.Digit

namespace CardLore.Command

structure OptionSpec (ι : Type) where
  name : ι
  short : Option Char
  long : String
  takesValue : Bool := false

-- The options that were given, in order, and the other arguments.
structure Arguments (ι : Type) where
  options : List (ι × Option String) := []
  others : List String := []

inductive ArgumentFault where
  | unknownOption (option : String)
  | missingValue (option : String)
  | unwantedValue (option : String)
deriving DecidableEq, Repr

-- Options read from one argument; the last one may still need a value.
structure OptionReading (ι : Type) where
  options : List (ι × Option String) := []
  pending : Option (ι × String) := none

variable {ι : Type}

-- Splits at the first equals sign.
def splitValue : List Char → List Char × Option (List Char)
  | [] => ([], none)
  | '=' :: rest => ([], some rest)
  | c :: rest =>
    let (name, value) := splitValue rest
    (c :: name, value)

def readShort (specs : List (OptionSpec ι)) : List Char → Except ArgumentFault (OptionReading ι)
  | [] => .ok {}
  | c :: rest =>
    let option := "-" ++ String.singleton c
    match specs.find? (·.short = some c) with
    | none => .error (.unknownOption option)
    | some spec =>
      if spec.takesValue then
        if rest.isEmpty then .ok { pending := some (spec.name, option) }
        else .ok { options := [(spec.name, some (String.ofList rest))] }
      else do
        let reading ← readShort specs rest
        return { reading with options := (spec.name, none) :: reading.options }

-- A long option, with its value behind an equals sign if it has one there.
def readLong (spec : OptionSpec ι) (value : Option (List Char)) :
    Except ArgumentFault (OptionReading ι) :=
  match spec.takesValue, value with
  | true, some value => .ok { options := [(spec.name, some (String.ofList value))] }
  | true, none => .ok { pending := some (spec.name, spec.long) }
  | false, some _ => .error (.unwantedValue spec.long)
  | false, none => .ok { options := [(spec.name, none)] }

def readOption (specs : List (OptionSpec ι)) (argument : String) :
    Except ArgumentFault (OptionReading ι) :=
  let (name, value) := splitValue argument.toList
  match specs.find? (·.long = String.ofList name), argument.toList with
  | some spec, _ => readLong spec value
  | none, '-' :: '-' :: _ => .error (.unknownOption (String.ofList name))
  | none, letters => readShort specs letters.tail

def isOption (argument : String) : Bool :=
  match argument.toList with
  | '-' :: _ :: _ => true
  | _ => false

-- Reads arguments. Two hyphens alone end the options; so does the first other argument, unless
-- options may stand `between` such arguments.
def readArguments (specs : List (OptionSpec ι)) (between : Bool) :
    List String → Except ArgumentFault (Arguments ι)
  | [] => .ok {}
  | argument :: rest =>
    if argument = "--" then .ok { others := rest }
    else if isOption argument then do
      let reading ← readOption specs argument
      match reading.pending, rest with
      | none, rest =>
        let arguments ← readArguments specs between rest
        return { arguments with options := reading.options ++ arguments.options }
      | some (_, option), [] => .error (.missingValue option)
      | some (name, _), value :: rest =>
        let arguments ← readArguments specs between rest
        return { arguments with
          options := reading.options ++ (name, some value) :: arguments.options }
    else if between then do
      let arguments ← readArguments specs between rest
      return { arguments with others := argument :: arguments.others }
    else .ok { others := argument :: rest }

namespace Arguments

-- How often an option was given.
def count [DecidableEq ι] (a : Arguments ι) (name : ι) : Nat :=
  a.options.countP (·.1 = name)

-- The value that was given last.
def value? [DecidableEq ι] (a : Arguments ι) (name : ι) : Option String :=
  ((a.options.filter (·.1 = name)).getLast?).bind (·.2)

end Arguments

-- The values of digits; single underscores may stand between them.
def moreDigitValues : List Char → Option (List Nat)
  | [] => some []
  | '_' :: c :: rest => do return (← Text.digitValue? c) :: (← moreDigitValues rest)
  | c :: rest => do return (← Text.digitValue? c) :: (← moreDigitValues rest)

def digitValues : List Char → Option (List Nat)
  | [] => none
  | c :: rest => do return (← Text.digitValue? c) :: (← moreDigitValues rest)

-- White space that may stand around an integer: all but the control characters that separate
-- records.
def isPadding (c : Char) : Bool :=
  Text.isBlank c && !(0x1C ≤ c.toNat && c.toNat ≤ 0x1F)

-- The integer that an argument is: digits of any script with an optional sign, and padding around
-- them.
def integer? (argument : String) : Option Int := do
  let trimmed := ((argument.toList.dropWhile isPadding).reverse.dropWhile isPadding).reverse
  let (negative, signLength) := Numeral.scanSign trimmed
  let digits ← digitValues (trimmed.drop signLength)
  if maxIntegerDigits < digits.length then none
  let value : Int := (digits.foldl (fun n d => 10 * n + d) 0 : Nat)
  return if negative then -value else value

end CardLore.Command
