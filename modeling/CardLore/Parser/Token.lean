import CardLore.Parser.Basic
import CardLore.Text.Lower

namespace CardLore

-- An integer is written with at most this many digits.
def maxIntegerDigits : Nat := 4300

-- The number that decimal digits write.
def decimalValue (digits : List Char) : Nat :=
  digits.foldl (fun n c => 10 * n + (c.toNat - '0'.toNat)) 0

-- An identifier goes on with the next character.
def continuesKey : List Char → Bool
  | [] => false
  | c :: _ => isKeyChar c

-- An arrow stands next.
def startsArrow : List Char → Bool
  | '-' :: '>' :: _ => true
  | _ => false

def keyChars : List Char → List Char
  | [] => []
  | c :: rest =>
    if isKeyChar c && !startsArrow (c :: rest) then c :: keyChars rest else []

def shortEscape? : Char → Option Char
  | '"' => some '"'
  | '\\' => some '\\'
  | '/' => some '/'
  | 'b' => some '\x08'
  | 'f' => some '\x0c'
  | 'n' => some '\n'
  | 'r' => some '\r'
  | 't' => some '\t'
  | _ => none

def hexValue? (c : Char) : Option Nat :=
  if '0' ≤ c ∧ c ≤ '9' then some (c.toNat - '0'.toNat)
  else if 'a' ≤ c ∧ c ≤ 'f' then some (c.toNat - 'a'.toNat + 10)
  else if 'A' ≤ c ∧ c ≤ 'F' then some (c.toNat - 'A'.toNat + 10)
  else none

-- The code point of a numbered escape with the four given digits.
def numberedPoint? (a b c d : Char) : Option CodePoint := do
  let a ← hexValue? a
  let b ← hexValue? b
  let c ← hexValue? c
  let d ← hexValue? d
  return CodePoint.ofNat (((a * 16 + b) * 16 + c) * 16 + d)

-- How the inside of a quoted string ends: at its closing quote, at the end of the text, or behind a
-- backslash that starts no escape.
inductive StringScan where
  | closed (text : Text) (length : Nat)
  | unclosed
  | badEscape (offset : Nat)
deriving DecidableEq, Repr

-- One code point, written with `length` characters, before the rest of a string.
def StringScan.cons (point : CodePoint) (length : Nat) : StringScan → StringScan
  | closed text after => closed (point :: text) (length + after)
  | unclosed => unclosed
  | badEscape offset => badEscape (length + offset)

-- Reads the inside of a quoted string, from behind its opening quote.
def scanString : List Char → StringScan
  | [] => .unclosed
  | '"' :: _ => .closed [] 1
  | '\\' :: 'u' :: a :: b :: c :: d :: rest =>
    match numberedPoint? a b c d with
    | some point => (scanString rest).cons point 6
    | none => .badEscape 1
  | '\\' :: c :: rest =>
    match shortEscape? c with
    | some meaning => (scanString rest).cons (.scalar meaning) 2
    | none => .badEscape 1
  | '\\' :: [] => .badEscape 1
  | c :: rest => (scanString rest).cons (.scalar c) 1

namespace Parser

-- Skips trivia, line ends included iff `newlines`, and tells whether a line end was crossed.
def skipTriviaWith (newlines : Bool) : Parser Bool := fun ctx s =>
  match Trivia.skip newlines s.pos s.rest with
  | .stopped pos rest crossed => .ok crossed { s with pos, rest }
  | .unclosed start => failAt start "'*)' to close block comment" ctx s

def skipTrivia : Parser Bool := fun ctx s =>
  skipTriviaWith ctx.newlines ctx s

-- The offset of the next token.
def tokenStart : Parser Nat := do
  let _ ← skipTrivia
  position

def newline : Parser Unit := do
  let _ ← skipTriviaWith false
  match ← ahead with
  | c :: _ =>
    if Trivia.isLineEnd c then
      let _ ← skipTriviaWith true
    else fail "a newline"
  | [] => fail "a newline"

-- Whether `text` stands next.
def lookingAt (text : String) : Parser Bool := lookahead do
  let _ ← skipTrivia
  return text.toList.isPrefixOf (← ahead)

def onlyTriviaLeft : Parser Bool := lookahead do
  let _ ← skipTriviaWith true
  return (← ahead).isEmpty

-- The characters of `text`.
def symbol (text : String) : Parser Unit := do
  let _ ← skipTrivia
  if text.toList.isPrefixOf (← ahead) then advance text.length
  else fail s!"'{text}'"

-- The word `word` in any letter case, with no key character behind it.
def keyword (word : String) : Parser Unit := do
  let _ ← skipTrivia
  let cs ← ahead
  if Text.lower (Text.ofChars (cs.take word.length)) = Text.ofString word
      ∧ !continuesKey (cs.drop word.length) then advance word.length
  else fail s!"'{word}'"

def trySymbol (text : String) : Parser Bool := do
  return (← attempt (symbol text)).isSome

def tryKeyword (word : String) : Parser Bool := do
  return (← attempt (keyword word)).isSome

def key : Parser Key := do
  let _ ← skipTrivia
  let cs := keyChars (← ahead)
  if cs.isEmpty then fail "an identifier"
  else
    advance cs.length
    return Key.ofChars cs

def string : Parser Text := do
  let start ← tokenStart
  match ← ahead with
  | '"' :: inside =>
    match scanString inside with
    | .closed text length =>
      advance (1 + length)
      return text
    | .unclosed => failAt start "'\"' to close string"
    | .badEscape offset => failAt (start + 1 + offset) "a valid escape sequence"
  | _ => fail "a string"

def unsigned : Parser Nat := do
  let _ ← skipTrivia
  let cs ← ahead
  let digits := cs.takeWhile Char.isDigit
  let after := cs.dropWhile Char.isDigit
  if digits.isEmpty ∨ (continuesKey after ∧ !startsArrow after) then fail "an unsigned integer"
  else if maxIntegerDigits < digits.length then
    fail s!"an integer of at most {maxIntegerDigits} digits"
  else
    advance digits.length
    return decimalValue digits

-- The sign of a number whose digits follow it directly.
def leadingSign? : List Char → Option Bool
  | '-' :: c :: _ => if c.isDigit then some true else none
  | '+' :: c :: _ => if c.isDigit then some false else none
  | _ => none

def signed : Parser Int := do
  let _ ← skipTrivia
  match leadingSign? (← ahead) with
  | some negative =>
    advance 1
    let n ← unsigned
    return if negative then -(n : Int) else n
  | none => return (← unsigned)

-- An unsigned integer that may be followed by a percent sign. More than a hundred is refused.
def percentage : Parser Probability := do
  let start ← tokenStart
  let n ← unsigned
  match ← ahead with
  | '%' :: _ => advance 1
  | _ => pure ()
  match Probability.ofInt? n with
  | some p => return p
  | none => refuseFrom (.badChance n) start

def tryPercentage : Parser (Option Probability) :=
  attempt percentage

end Parser

end CardLore
