namespace CardLore

-- A range of a source file from its first to its last character.
structure Span where
  file : String
  startLine : Nat
  startCol : Nat
  endLine : Nat
  endCol : Nat
deriving DecidableEq, Repr, Inhabited

namespace Span

-- The span that stands for a file as a whole.
def ofFile (file : String) : Span := ⟨file, 1, 1, 1, 1⟩

-- File, line and column of the first character.
def location (span : Span) : String :=
  s!"{span.file}:{span.startLine}:{span.startCol}"

end Span

structure Located (α : Type) where
  value : α
  span : Span
deriving Inhabited

end CardLore
