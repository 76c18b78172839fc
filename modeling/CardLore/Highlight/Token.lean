import CardLore.Parser.Token
import CardLore.Text.Blank
import CardLore.Text.Lines
import CardLore.Text.Word

namespace CardLore.Highlight

inductive TokenKind where
  | text
  | whitespace
  | lineComment
  | blockComment
  | decorator
  | string
  | escape
  | integer
  | float
  | constant
  | declaration
  | structural
  | modifier
  | keyword
  | operator
  | name
  | punctuation
  | error
deriving DecidableEq, Repr

-- The name of a kind of token, from the general to the special.
def TokenKind.path : TokenKind → String
  | text => "Text"
  | whitespace => "Text.Whitespace"
  | lineComment => "Comment.Single"
  | blockComment => "Comment.Multiline"
  | decorator => "Name.Decorator"
  | string => "Literal.String"
  | escape => "Literal.String.Escape"
  | integer => "Literal.Number.Integer"
  | float => "Literal.Number.Float"
  | constant => "Keyword.Constant"
  | declaration => "Keyword.Declaration"
  | structural => "Keyword.Namespace"
  | modifier => "Keyword.Pseudo"
  | keyword => "Keyword"
  | operator => "Operator"
  | name => "Name"
  | punctuation => "Punctuation"
  | error => "Error"

structure Token where
  kind : TokenKind
  content : List Char
deriving DecidableEq, Repr

inductive Mode where
  | root
  | string
  | comment
  | decorator
deriving DecidableEq, Repr

inductive Turn where
  | stay
  | enter (mode : Mode)
  | leave
deriving DecidableEq, Repr

-- A rule: how many characters it matches, given the character before them.
structure Rule where
  kind : TokenKind
  length : Option Char → List Char → Nat
  turn : Turn := .stay

-- The length of the run of characters at the front that satisfy `p`.
def runLength (p : Char → Bool) (cs : List Char) : Nat :=
  (cs.takeWhile p).length

-- A run of any length.
def run (p : Char → Bool) (_ : Option Char) (cs : List Char) : Nat :=
  runLength p cs

-- One of some texts.
def exactly (texts : List String) (_ : Option Char) (cs : List Char) : Nat :=
  match texts.find? (·.toList.isPrefixOf cs) with
  | some t => t.length
  | none => 0

def startsWithWord : List Char → Bool
  | c :: _ => Text.isWord c
  | [] => false

-- `length` if a word ends there, that is, if no word character follows.
def endingWord (length : Nat) (cs : List Char) : Nat :=
  if startsWithWord (cs.drop length) then 0 else length

def lineCommentLength (_ : Option Char) : List Char → Nat
  | '/' :: '/' :: rest => 2 + runLength (· != '\n') rest
  | _ => 0

def signLength : List Char → Nat
  | '+' :: _ => 1
  | '-' :: _ => 1
  | _ => 0

-- Digits and a percent sign.
def percentLength (_ : Option Char) (cs : List Char) : Nat :=
  let digits := runLength Char.isDigit cs
  match digits, cs.drop digits with
  | 0, _ => 0
  | _, '%' :: _ => digits + 1
  | _, _ => 0

-- An exponent with at least one digit.
def exponentLength : List Char → Nat
  | mark :: rest =>
    let sign := signLength rest
    let digits := runLength Char.isDigit (rest.drop sign)
    if (mark = 'e' ∨ mark = 'E') ∧ 0 < digits then 1 + sign + digits else 0
  | [] => 0

def floatLength (_ : Option Char) (cs : List Char) : Nat :=
  let sign := signLength cs
  let whole := runLength Char.isDigit (cs.drop sign)
  match whole, cs.drop (sign + whole) with
  | 0, _ => 0
  | _, '.' :: rest =>
    let fraction := runLength Char.isDigit rest
    if fraction = 0 then 0
    else
      let length := sign + whole + 1 + fraction
      endingWord (length + exponentLength (cs.drop length)) cs
  | _, _ => 0

def integerLength (_ : Option Char) (cs : List Char) : Nat :=
  let sign := signLength cs
  let digits := runLength Char.isDigit (cs.drop sign)
  if digits = 0 then 0 else endingWord (sign + digits) cs

-- A character is a letter of a keyword in some case; four letters outside of ASCII count as cases
-- of one inside.
def isCaseOf (letter c : Char) : Bool :=
  c.toLower == letter || (letter == 'k' && c == '\u212a') || (letter == 's' && c == '\u017f')
    || (letter == 'i' && (c == '\u0130' || c == '\u0131'))

def matchesWord : List Char → List Char → Bool
  | [], _ => true
  | letter :: word, c :: rest => isCaseOf letter c && matchesWord word rest
  | _ :: _, [] => false

-- One of some words in any case, with no word character on either side.
def anyWord (words : List String) (before : Option Char) (cs : List Char) : Nat :=
  if before.any Text.isWord then 0
  else
    let matches? (w : String) := matchesWord w.toList cs && 0 < endingWord w.length cs
    match words.find? matches? with
    | some w => w.length
    | none => 0

-- Characters of names behind the first one.
def isNameChar (c : Char) : Bool :=
  c.isAlphanum || c == '_' || c == '$' || c == '.'

-- Name characters, and hyphens that start no arrow.
def nameTailLength : List Char → Nat
  | [] => 0
  | c :: rest =>
    if isNameChar c || (c == '-' && !startsArrow (c :: rest)) then 1 + nameTailLength rest else 0

def nameLength (_ : Option Char) : List Char → Nat
  | c :: rest => if isNameChar c && c != '.' then 1 + nameTailLength rest else 0
  | [] => 0

def escapeLength (_ : Option Char) : List Char → Nat
  | '\\' :: 'u' :: a :: b :: c :: d :: _ => if (numberedPoint? a b c d).isSome then 6 else 0
  | '\\' :: c :: _ => if (shortEscape? c).isSome then 2 else 0
  | _ => 0

def declarationWords : List String :=
  ["aspect", "card", "deck", "verb", "recipe", "legacy", "ending"]

def structuralWords : List String := ["namespace", "from"]

def modifierWords : List String := ["hidden", "consume", "greedy", "default"]

def statementWords : List String :=
  ["set", "induce", "xtrigger", "unique", "slot", "spawn", "mutate", "require", "effect", "purge",
    "draw", "halt", "delete", "ending", "link", "goto", "expel", "table", "extant", "status",
    "exclude"]

def rootRules : List Rule := [
  ⟨.text, run Text.isBlank, .stay⟩,
  ⟨.lineComment, lineCommentLength, .stay⟩,
  ⟨.blockComment, exactly ["(*"], .enter .comment⟩,
  ⟨.decorator, exactly ["#![", "#["], .enter .decorator⟩,
  ⟨.string, exactly ["\""], .enter .string⟩,
  ⟨.integer, percentLength, .stay⟩,
  ⟨.float, floatLength, .stay⟩,
  ⟨.integer, integerLength, .stay⟩,
  ⟨.constant, anyWord ["true", "false", "null"], .stay⟩,
  ⟨.declaration, anyWord declarationWords, .stay⟩,
  ⟨.structural, anyWord structuralWords, .stay⟩,
  ⟨.modifier, anyWord modifierWords, .stay⟩,
  ⟨.keyword, anyWord statementWords, .stay⟩,
  ⟨.operator, exactly ["->", "=", ":", "!", "?"], .stay⟩,
  ⟨.name, nameLength, .stay⟩,
  ⟨.punctuation, exactly ["(", ")", ",", "[", "]", "\x7b", "\x7d"], .stay⟩]

def stringRules : List Rule := [
  ⟨.escape, escapeLength, .stay⟩,
  ⟨.string, run (fun c => c != '"' && c != '\\'), .stay⟩,
  ⟨.string, exactly ["\""], .leave⟩]

def commentRules : List Rule := [
  ⟨.blockComment, run (· != '*'), .stay⟩,
  ⟨.blockComment, exactly ["*)"], .leave⟩,
  ⟨.blockComment, exactly ["*"], .stay⟩]

def decoratorRules : List Rule := [
  ⟨.decorator, exactly ["]"], .leave⟩,
  ⟨.string, exactly ["\""], .enter .string⟩,
  ⟨.operator, exactly ["="], .stay⟩,
  ⟨.text, run Text.isBlank, .stay⟩,
  ⟨.decorator, run (fun c => c != ']' && c != '"' && c != '=' && !Text.isBlank c), .stay⟩]

def Mode.rules : Mode → List Rule
  | root => rootRules
  | string => stringRules
  | comment => commentRules
  | decorator => decoratorRules

-- The modes after a turn; the outermost mode is never left.
def Turn.apply (modes : List Mode) : Turn → List Mode
  | stay => modes
  | enter mode => mode :: modes
  | leave => match modes with
    | _ :: outer :: rest => outer :: rest
    | _ => modes

-- The kind and length of the next token, and the modes behind it. A line end that no rule matches
-- starts anew.
def next (modes : List Mode) (before : Option Char) (c : Char) (rest : List Char) :
    TokenKind × Nat × List Mode :=
  match (modes.headD .root).rules.find? (fun rule => 0 < rule.length before (c :: rest)) with
  | some rule => (rule.kind, rule.length before (c :: rest), rule.turn.apply modes)
  | none => if c = '\n' then (.whitespace, 1, [.root]) else (.error, 1, modes)

-- Every token has at least one character, so there are at most as many tokens as characters.
def tokensUpTo : (bound : Nat) → List Mode → Option Char → List Char → List Token
  | 0, _, _, _ => []
  | _ + 1, _, _, [] => []
  | bound + 1, modes, before, c :: rest =>
    let (kind, length, modes) := next modes before c rest
    let content := (c :: rest).take length
    ⟨kind, content⟩ :: tokensUpTo bound modes content.getLast? ((c :: rest).drop length)

-- Takes all line feeds off both ends.
def stripLineFeeds (cs : List Char) : List Char :=
  ((cs.dropWhile (· == '\n')).reverse.dropWhile (· == '\n')).reverse

-- The first byte order mark of a text is no part of it.
def dropMark : List Char → List Char
  | '\ufeff' :: rest => rest
  | cs => cs

-- The text that is cut into tokens: it has no byte order mark, its line ends are line feeds, and it
-- ends in exactly one of them.
def prepare (cs : List Char) : List Char :=
  stripLineFeeds (Text.unifyLineEnds (dropMark cs)) ++ ['\n']

def tokens (source : List Char) : List Token :=
  let cs := prepare source
  tokensUpTo cs.length [.root] none cs

end CardLore.Highlight
