import CardLore.Declaration.Basic
import CardLore.Declaration.Component

namespace CardLore

namespace Parser

-- `[<key>]` or `[<key> = <literal>]`, behind the mark that starts an attribute.
def attributeBody : Parser Attribute := do
  symbol "["
  let name ← key
  let value ← after? "=" literal
  symbol "]"
  return ⟨name, value.getD .null⟩

def fileAttribute : Parser Attribute := do
  symbol "#!"
  attributeBody

def localAttribute : Parser Attribute := do
  symbol "#"
  attributeBody

-- `namespace <id> { … }`, given a parser for its body.
def scope (body : Parser (List Declaration)) : Parser Declaration := do
  let start ← tokenStart
  let attributes ← many localAttribute
  keyword "namespace"
  let id ← key
  symbol "\x7b"
  let declarations ← body
  symbol "\x7d"
  return .scope id attributes declarations (← spanFrom start)

-- A component with its attributes and, behind `from`, the component that it inherits from.
def componentDeclaration : Parser Declaration := do
  let start ← tokenStart
  let attributes ← many localAttribute
  let inherits ← if ← tryKeyword "from" then some <$> key else pure none
  let component ← component
  return .component
    { id := component.id, attributes, component, inherits, span := ← spanFrom start }

-- A declaration in which namespaces nest at most `depth` deep.
def declarationWithin : (depth : Nat) → Parser Declaration
  | 0 => stop .tooDeep
  | depth + 1 => choice (scope (many (declarationWithin depth))) [componentDeclaration]

def declarations : Parser (List Declaration) := fun ctx s =>
  many (declarationWithin ctx.limit) ctx s

end Parser

-- Input that is left behind the last declaration: its first character, and the furthest mismatch
-- with what was expected there, unless it lies before that character.
structure Leftover where
  start : Span
  furthest : Option (Span × List String)
deriving DecidableEq, Repr

namespace Leftover

-- The expectations at the furthest mismatch, in words.
def expectation (expected : List String) : String :=
  " or ".intercalate expected

def diagnostic (l : Leftover) : Diagnostic :=
  match l.furthest with
  | none => .errorAt "E101" "unparsed input after the last declaration" l.start
  | some (place, expected) =>
    let remark := s!"expected {expectation expected}"
    { Diagnostic.errorAt "E101" "unparsed input after the last declaration" l.start with
      labels := .primary l.start ::
        (if place = l.start then [] else [.secondary place remark])
      notes := [s!"parsing stopped at {place.location}: {remark}"] }

end Leftover

structure Mismatch where
  pos : Nat
  expected : String
deriving DecidableEq, Repr

def Mismatch.message (m : Mismatch) : String :=
  s!"expected {m.expected} at offset {m.pos}"

inductive FileFault where
  | unreadable (reason : Text)
  | tooDeep
  | refused (refusal : Refusal)
  | leftover (leftover : Leftover)

def FileFault.diagnostic (file : String) : FileFault → Diagnostic
  | unreadable reason =>
    .errorAt "E001" (Text.concat ["cannot read ", file, ": ", reason]) (.ofFile file)
  | tooDeep =>
    { Diagnostic.errorAt "E100" "nesting is too deep to parse" (.ofFile file) with
      notes := ["flatten the nested literals or namespaces in this file"] }
  | refused refusal => refusal.diagnostic
  | leftover l => l.diagnostic

namespace Parser

-- The attributes and declarations of a file, and what is left behind them.
def file : Parser (FileTree ⊕ Leftover) := do
  let attributes ← many fileAttribute
  let declarations ← declarations
  if ← onlyTriviaLeft then fun ctx s => .ok (.inl ⟨ctx.file, attributes, declarations⟩) s
  else
    let _ ← skipTriviaWith true
    fun ctx s =>
      let place (pos : Nat) := ctx.index.span ctx.file pos (pos + 1)
      let furthest := match s.furthest.pos with
        | some pos => if s.pos ≤ pos then some (place pos, s.furthest.expected) else none
        | none => none
      .ok (.inr ⟨place s.pos, furthest⟩) s

end Parser

-- A file that was read: its tree, or why it has none.
structure ParsedFile where
  file : String
  result : Except FileFault FileTree

namespace ParsedFile

def tree? (p : ParsedFile) : Option FileTree :=
  match p.result with
  | .ok tree => some tree
  | .error _ => none

def ok (p : ParsedFile) : Bool :=
  p.tree?.isSome

def diagnostics (p : ParsedFile) : List Diagnostic :=
  match p.result with
  | .ok _ => []
  | .error fault => [fault.diagnostic p.file]

-- Reads a source, which holds no lone halves of surrogate pairs. Only a block comment that is still
-- open behind the last declaration lets a mismatch through.
def ofSource (file : String) (source : List Char) (limit : Nat := defaultLimit) :
    Except Mismatch ParsedFile :=
  match Parser.file (.ofSource file source limit) (.ofSource source) with
  | .ok (.inl tree) _ => .ok ⟨file, .ok tree⟩
  | .ok (.inr leftover) _ => .ok ⟨file, .error (.leftover leftover)⟩
  | .mismatch pos expected _ => .error ⟨pos, expected⟩
  | .fault (.refused refusal) _ => .ok ⟨file, .error (.refused refusal)⟩
  | .fault .tooDeep _ => .ok ⟨file, .error .tooDeep⟩

end ParsedFile

end CardLore
