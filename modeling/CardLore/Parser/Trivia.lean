namespace CardLore.Trivia

def isLineEnd (c : Char) : Bool :=
  c == '\r' || c == '\n'

def isSpace (c : Char) : Bool :=
  c == ' ' || c == '\t'

-- What the scan is inside of; a block comment remembers where it was opened.
inductive Place where
  | open
  | lineComment
  | blockComment (start : Nat)
deriving DecidableEq, Repr

-- How a scan ends: behind all trivia, having crossed a line end or not, or at the end of the text
-- inside of a block comment.
inductive Scan where
  | stopped (pos : Nat) (rest : List Char) (crossed : Bool)
  | unclosed (start : Nat)
deriving DecidableEq, Repr

-- Skips trivia from the place where the scan is. Line ends are trivia iff `newlines`.
def scan (newlines : Bool) : Place → Nat → Bool → List Char → Scan
  | .blockComment start, _, _, [] => .unclosed start
  | .blockComment _, pos, crossed, '*' :: ')' :: rest => scan newlines .open (pos + 2) crossed rest
  | .blockComment start, pos, crossed, _ :: rest =>
    scan newlines (.blockComment start) (pos + 1) crossed rest
  | _, pos, crossed, [] => .stopped pos [] crossed
  | .open, pos, crossed, '/' :: '/' :: rest => scan newlines .lineComment (pos + 2) crossed rest
  | .open, pos, crossed, '(' :: '*' :: rest =>
    scan newlines (.blockComment pos) (pos + 2) crossed rest
  | place, pos, crossed, c :: rest =>
    if isLineEnd c then
      if newlines then scan newlines .open (pos + 1) true rest
      else .stopped pos (c :: rest) crossed
    else if place = .lineComment ∨ isSpace c then scan newlines place (pos + 1) crossed rest
    else .stopped pos (c :: rest) crossed
termination_by structural _ _ _ cs => cs

-- Skips the trivia at the front of a text that starts at `pos`.
def skip (newlines : Bool) (pos : Nat) (cs : List Char) : Scan :=
  scan newlines .open pos false cs

end CardLore.Trivia
