import CardLore.Literal.Number
import CardLore.Toml.Basic

namespace CardLore.Toml

def isSpace (c : Char) : Bool := c == ' ' || c == '\t'

def isSpaceOrLineEnd (c : Char) : Bool := isSpace c || c == '\n'

-- Characters that stand nowhere but as blanks and line ends.
def isControl (c : Char) : Bool := (c.toNat < 32 && c != '\t') || c.toNat == 127

def skipSpace (cs : List Char) : List Char := cs.dropWhile isSpace

def skipComment? : List Char → Option (List Char)
  | '#' :: rest =>
    if (rest.takeWhile (· != '\n')).any isControl then none
    else some (rest.dropWhile (· != '\n'))
  | cs => some cs

def escape? : Char → Option Char
  | 'b' => some '\x08'
  | 't' => some '\t'
  | 'n' => some '\n'
  | 'f' => some '\x0c'
  | 'r' => some '\r'
  | '"' => some '"'
  | '\\' => some '\\'
  | _ => none

def numbered? (digits : List Char) : Option Char := do
  let value := (← digits.mapM hexValue?).foldl (fun n d => 16 * n + d) 0
  if value.isValidChar then return Char.ofNat value else none

-- Puts a character in front of a string that was read.
def cons? (c : Option Char) (read : Option (List Char × List Char)) :
    Option (List Char × List Char) := do
  let c ← c
  let (cs, rest) ← read
  return (c :: cs, rest)

-- The inside of a string in double quotes, up to the closing one.
def quoted : Scan (List Char)
  | [] => none
  | '"' :: rest => some ([], rest)
  | '\\' :: 'u' :: a :: b :: c :: d :: rest => cons? (numbered? [a, b, c, d]) (quoted rest)
  | '\\' :: 'U' :: a :: b :: c :: d :: e :: f :: g :: h :: rest =>
    cons? (numbered? [a, b, c, d, e, f, g, h]) (quoted rest)
  | '\\' :: c :: rest => cons? (escape? c) (quoted rest)
  | c :: rest => if isControl c then none else cons? (some c) (quoted rest)

-- Whether blanks are left out behind a backslash: only up to the line end, or beyond it.
inductive Trim where
  | off
  | beforeLineEnd
  | afterLineEnd

-- Behind the three closing quotes of a string over several lines, up to two more belong to it.
def closing : List Char → List Char × List Char
  | '"' :: '"' :: rest => (['"', '"'], rest)
  | '"' :: rest => (['"'], rest)
  | rest => ([], rest)

def quotedLines : Trim → Scan (List Char)
  | .afterLineEnd, ' ' :: rest => quotedLines .afterLineEnd rest
  | .afterLineEnd, '\t' :: rest => quotedLines .afterLineEnd rest
  | .afterLineEnd, '\n' :: rest => quotedLines .afterLineEnd rest
  | .beforeLineEnd, ' ' :: rest => quotedLines .beforeLineEnd rest
  | .beforeLineEnd, '\t' :: rest => quotedLines .beforeLineEnd rest
  | .beforeLineEnd, '\n' :: rest => quotedLines .afterLineEnd rest
  | .beforeLineEnd, _ => none
  | _, [] => none
  | _, '"' :: '"' :: '"' :: rest => some (closing rest)
  | _, '\\' :: ' ' :: rest => quotedLines .beforeLineEnd rest
  | _, '\\' :: '\t' :: rest => quotedLines .beforeLineEnd rest
  | _, '\\' :: '\n' :: rest => quotedLines .afterLineEnd rest
  | _, '\\' :: 'u' :: a :: b :: c :: d :: rest =>
    cons? (numbered? [a, b, c, d]) (quotedLines .off rest)
  | _, '\\' :: 'U' :: a :: b :: c :: d :: e :: f :: g :: h :: rest =>
    cons? (numbered? [a, b, c, d, e, f, g, h]) (quotedLines .off rest)
  | _, '\\' :: c :: rest => cons? (escape? c) (quotedLines .off rest)
  | _, c :: rest =>
    if isControl c && c != '\n' then none else cons? (some c) (quotedLines .off rest)

-- The inside of a string in single quotes, which has no escapes.
def plain : Scan (List Char)
  | [] => none
  | '\'' :: rest => some ([], rest)
  | c :: rest => if isControl c then none else cons? (some c) (plain rest)

-- Like `closing`, for single quotes.
def plainClosing : List Char → List Char × List Char
  | '\'' :: '\'' :: rest => (['\'', '\''], rest)
  | '\'' :: rest => (['\''], rest)
  | rest => ([], rest)

def plainLines : Scan (List Char)
  | [] => none
  | '\'' :: '\'' :: '\'' :: rest => some (plainClosing rest)
  | c :: rest => if isControl c && c != '\n' then none else cons? (some c) (plainLines rest)

-- A line end right behind the opening quotes is no part of the string.
def dropLineEnd : List Char → List Char
  | '\n' :: rest => rest
  | cs => cs

def string : Scan (List Char)
  | '"' :: '"' :: '"' :: rest => quotedLines .off (dropLineEnd rest)
  | '"' :: rest => quoted rest
  | '\'' :: '\'' :: '\'' :: rest => plainLines (dropLineEnd rest)
  | '\'' :: rest => plain rest
  | _ => none

-- Digits, with single underscores before them.
def moreDigits (isDigit : Char → Bool) : List Char → List Char × List Char
  | [] => ([], [])
  | '_' :: c :: rest =>
    if isDigit c then
      let (digits, rest) := moreDigits isDigit rest
      (c :: digits, rest)
    else ([], '_' :: c :: rest)
  | c :: rest =>
    if isDigit c then
      let (digits, rest) := moreDigits isDigit rest
      (c :: digits, rest)
    else ([], c :: rest)

-- At least one digit; single underscores may stand between digits.
def digits (isDigit : Char → Bool) : Scan (List Char)
  | [] => none
  | c :: rest =>
    if isDigit c then
      let (digits, rest) := moreDigits isDigit rest
      some (c :: digits, rest)
    else none

def valueIn (base : Nat) (digits : List Char) : Nat :=
  digits.foldl (fun n c => base * n + (hexValue? c).getD 0) 0

def markedInteger? : Scan Nat
  | '0' :: mark :: rest => do
    let base ← match mark with
      | 'x' => some 16
      | 'o' => some 8
      | 'b' => some 2
      | _ => none
    let isDigit (c : Char) := match hexValue? c with
      | some d => decide (d < base)
      | none => false
    let (read, rest) ← digits isDigit rest
    return (valueIn base read, rest)
  | _ => none

-- A whole number without needless zeros.
def wholeDigits : Scan (List Char)
  | '0' :: rest => some (['0'], rest)
  | cs => digits Char.isDigit cs

def fractionDigits? : Scan (List Char)
  | '.' :: rest => digits Char.isDigit rest
  | _ => none

def exponent? : Scan Int
  | mark :: rest =>
    if mark == 'e' || mark == 'E' then do
      let (negative, signLength) := Numeral.scanSign rest
      let (read, rest) ← digits Char.isDigit (rest.drop signLength)
      let value : Int := decimalValue read
      return (if negative then -value else value, rest)
    else none
  | [] => none

-- What an optional part gives, and the text behind it.
def optionally {α : Type} (read : Scan α) (cs : List Char) : Option α × List Char :=
  match read cs with
  | some (a, rest) => (some a, rest)
  | none => (none, cs)

def infinity : Float := 1.0 / 0.0

def undefinedNumber : Float := 0.0 / 0.0

-- A number in decimal digits, or one of the words for infinity and for no number.
def decimal : Reader Value := fun cs => do
  let (negative, signLength) := Numeral.scanSign cs
  match cs.drop signLength with
  | 'i' :: 'n' :: 'f' :: rest => return (.float (if negative then -infinity else infinity), rest)
  | 'n' :: 'a' :: 'n' :: rest => return (.float undefinedNumber, rest)
  | cs =>
    let (whole, rest) ← orMalformed (wholeDigits cs)
    let (fraction, rest) := optionally fractionDigits? rest
    let (exponent, rest) := optionally exponent? rest
    let n : Numeral := ⟨negative, whole, fraction, exponent⟩
    if n.isInteger then
      match n.integer? with
      | some value => return (.int value, rest)
      | none => .error .integerTooLong
    else return (.float n.float, rest)

def number : Reader Value := fun cs =>
  match markedInteger? cs with
  | some (n, rest) => .ok (.int n, rest)
  | none => decimal cs

def isKeyLetter (c : Char) : Bool := c.isAlphanum || c == '-' || c == '_'

-- One part of a key: a bare word, or a string on one line.
def keyPart : Scan Text
  | '"' :: rest => do
    let (name, rest) ← quoted rest
    return (Text.ofChars name, rest)
  | '\'' :: rest => do
    let (name, rest) ← plain rest
    return (Text.ofChars name, rest)
  | cs =>
    let name := cs.takeWhile isKeyLetter
    if name.isEmpty then none else some (Text.ofChars name, cs.dropWhile isKeyLetter)

-- The parts behind the first; each takes at least its point off the text.
def keyParts : (bound : Nat) → Scan (List Text)
  | 0, _ => none
  | bound + 1, '.' :: rest => do
    let (part, rest) ← keyPart (skipSpace rest)
    let (parts, rest) ← keyParts bound (skipSpace rest)
    return (part :: parts, rest)
  | _ + 1, cs => some ([], cs)

-- A key: its parts are divided by points. The blanks behind it are taken as well.
def key : Scan (List Text) := fun cs => do
  let (part, rest) ← keyPart cs
  let (parts, rest) ← keyParts (rest.length + 1) (skipSpace rest)
  return (part :: parts, rest)

end CardLore.Toml
