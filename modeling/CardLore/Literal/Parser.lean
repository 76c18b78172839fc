import CardLore.Literal.Number
import CardLore.Parser.Delimited

namespace CardLore

namespace Parser

-- A number starts here.
def startsNumber : List Char → Bool
  | c :: rest => c.isDigit || (leadingSign? (c :: rest)).isSome
  | [] => false

def number : Parser Literal := do
  let start ← position
  let cs ← ahead
  let (numeral, length) := Numeral.scan cs
  if continuesKey (cs.drop length) then failAt start "a number"
  else match numeral.value? with
    | some value =>
      advance length
      return value
    | none => failAt start s!"a number of at most {maxIntegerDigits} digits"

-- The words that are literals.
def literalWords : List (String × Literal) :=
  [("null", .null), ("true", .bool true), ("false", .bool false)]

def startsWord (cs : List Char) (word : String) : Bool :=
  word.toList.isPrefixOf cs && !continuesKey (cs.drop word.length)

def literalWord : Parser Literal := do
  let cs ← ahead
  match literalWords.find? (fun entry => startsWord cs entry.1) with
  | some (word, value) =>
    advance word.length
    return value
  | none => fail "a literal value"

def memberName : Parser Text := do
  let _ ← skipTrivia
  match ← ahead with
  | '"' :: _ => string
  | _ => return (← key).text

-- A member of an object in which the members in `seen` come before it.
def member (value : Parser Literal) (seen : List (Text × Literal)) : Parser (Text × Literal) := do
  let start ← tokenStart
  let name ← memberName
  if seen.any (·.1 = name) then refuseFrom (.repeatedMember name) start
  else
    symbol ":"
    return (name, ← value)

-- A literal in which values nest at most `depth` deep.
def literalWithin : (depth : Nat) → Parser Literal
  | 0 => stop .tooDeep
  | depth + 1 => free do
    let _ ← skipTrivia
    let cs ← ahead
    match cs with
    | '"' :: _ => return .string (← string)
    | '[' :: _ =>
      symbol "["
      return .array (← delimited (literalWithin depth) "]")
    | '{' :: _ =>
      symbol "\x7b"
      return .object (← delimitedWith (member (literalWithin depth)) "\x7d")
    | _ => if startsNumber cs then number else literalWord

def literal : Parser Literal := fun ctx s =>
  literalWithin ctx.limit ctx s

end Parser

namespace Literal

inductive Reading where
  | value (literal : Literal) (rest : List Char)
  | mismatch (pos : Nat) (expected : String)
  | fault (cause : Fault)

def read (source : List Char) (file : String) (limit : Nat := defaultLimit) : Reading :=
  match Parser.literal (.ofSource file source limit) (.ofSource source) with
  | .ok value state => .value value state.rest
  | .mismatch pos expected _ => .mismatch pos expected
  | .fault cause _ => .fault cause

end Literal

end CardLore
