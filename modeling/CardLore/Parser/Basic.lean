import CardLore.Diagnostic.Offence
import CardLore.Parser.Trivia
import CardLore.Source.LineIndex

namespace CardLore

-- The mismatches that reached furthest: their position, and what was expected there, each
-- expectation once, in the order of first occurrence.
structure Furthest where
  pos : Option Nat
  expected : List String
deriving DecidableEq, Repr

namespace Furthest

def empty : Furthest := ⟨none, []⟩

def record (f : Furthest) (pos : Nat) (expected : String) : Furthest :=
  match f.pos with
  | none => ⟨some pos, [expected]⟩
  | some furthest =>
    if furthest < pos then ⟨some pos, [expected]⟩
    else if furthest = pos ∧ expected ∉ f.expected then ⟨f.pos, f.expected ++ [expected]⟩
    else f

end Furthest

inductive Fault where
  | refused (refusal : Refusal)
  | tooDeep

-- What a reader is set to: the name of its file, and how deep literals and namespaces may nest.
-- That depth is a matter of the stack of whatever runs the reader and no rule of the language.
structure Setting where
  file : String
  limit : Nat

-- The depth where nobody asks for another.
def defaultLimit : Nat := 256

-- What stays the same while a file is read, and whether line ends are blanks at the moment.
structure Context extends Setting where
  index : LineIndex
  newlines : Bool

namespace Context

def ofSource (file : String) (source : List Char) (limit : Nat := defaultLimit) : Context :=
  ⟨⟨file, limit⟩, .ofChars source, true⟩

end Context

-- How far a source is read. A source is a list of characters: text with lone halves of surrogate
-- pairs, which a string in memory can hold but no file that is read, is left out of the model.
structure State where
  pos : Nat
  rest : List Char
  furthest : Furthest
deriving DecidableEq, Repr

namespace State

def ofSource (source : List Char) : State :=
  ⟨0, source, .empty⟩

-- The state after the next `n` characters.
def advance (s : State) (n : Nat) : State :=
  { s with pos := s.pos + n, rest := s.rest.drop n }

end State

-- The reply of a parser: a value, a mismatch, or a fault.
inductive Reply (α : Type) where
  | ok (value : α) (state : State)
  | mismatch (pos : Nat) (expected : String) (furthest : Furthest)
  | fault (cause : Fault) (furthest : Furthest)

-- A parser for values of type `α`.
def Parser (α : Type) : Type :=
  Context → State → Reply α

namespace Parser

variable {α β : Type}

protected def pure (value : α) : Parser α := fun _ s => .ok value s

protected def bind (p : Parser α) (f : α → Parser β) : Parser β := fun ctx s =>
  match p ctx s with
  | .ok value next => f value ctx next
  | .mismatch pos expected furthest => .mismatch pos expected furthest
  | .fault cause furthest => .fault cause furthest

instance : Monad Parser where
  pure := Parser.pure
  bind := Parser.bind

def failAt (pos : Nat) (expected : String) : Parser α := fun _ s =>
  .mismatch pos expected (s.furthest.record pos expected)

def fail (expected : String) : Parser α := fun ctx s =>
  failAt s.pos expected ctx s

def stop (cause : Fault) : Parser α := fun _ s =>
  .fault cause s.furthest

def position : Parser Nat := fun _ s => .ok s.pos s

-- The next characters, which stay unread.
def ahead : Parser (List Char) := fun _ s => .ok s.rest s

def advance (n : Nat) : Parser Unit := fun _ s => .ok () (s.advance n)

-- The span of the offsets from `start` up to `stop`.
def spanBetween (start stop : Nat) : Parser Span := fun ctx s =>
  .ok (ctx.index.span ctx.file start stop) s

-- The span from `start` up to here.
def spanFrom (start : Nat) : Parser Span := fun ctx s =>
  spanBetween start s.pos ctx s

-- Refuses the text from `start` up to `stop`.
def refuseBetween (offence : Offence) (start stop : Nat) : Parser α := do
  let span ← spanBetween start stop
  Parser.stop (.refused ⟨offence, span⟩)

-- Refuses the text from `start` up to here.
def refuseFrom (offence : Offence) (start : Nat) : Parser α := do
  refuseBetween offence start (← position)

-- The value of a construction, or the end of the reading with its refusal.
def construct (result : Except Refusal α) : Parser α :=
  match result with
  | .ok value => pure value
  | .error refusal => stop (.refused refusal)

-- Runs `p`; after a mismatch, goes back and gives `none`.
def attempt (p : Parser α) : Parser (Option α) := fun ctx s =>
  match p ctx s with
  | .ok value next => .ok (some value) next
  | .mismatch _ _ furthest => .ok none { s with furthest }
  | .fault cause furthest => .fault cause furthest

-- The first of some alternatives that matches. If none does, the mismatch is that of the last.
def choice (first : Parser α) : List (Parser α) → Parser α
  | [] => first
  | second :: others => fun ctx s =>
    match first ctx s with
    | .mismatch _ _ furthest => choice second others ctx { s with furthest }
    | reply => reply

-- Runs `p` with line ends as blanks or as separators.
def withNewlines (newlines : Bool) (p : Parser α) : Parser α := fun ctx s =>
  p { ctx with newlines } s

-- Runs `p` with line ends as separators.
def inline (p : Parser α) : Parser α :=
  withNewlines false p

-- Runs `p` with line ends as blanks.
def free (p : Parser α) : Parser α :=
  withNewlines true p

-- The lookahead `p`: its answer counts, what it read does not.
def lookahead (p : Parser α) : Parser α := fun ctx s =>
  match p ctx s with
  | .ok value next => .ok value { s with furthest := next.furthest }
  | reply => reply

-- Items as long as `item` matches, at most `bound` of them.
def manyUpTo (item : Parser α) : (bound : Nat) → Parser (List α)
  | 0 => pure []
  | bound + 1 => do
    match ← attempt item with
    | none => pure []
    | some value => return value :: (← manyUpTo item bound)

-- Items as long as `item` matches. An item takes at least one character, so there are no more items
-- than characters.
def many (item : Parser α) : Parser (List α) := fun ctx s =>
  manyUpTo item (s.rest.length + 1) ctx s

end Parser

end CardLore
