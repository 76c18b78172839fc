namespace CardLore.Text

-- Characters that end a line.
def isLineBreak (c : Char) : Bool :=
  c == '\n' || c == '\r' || c == '\x0b' || c == '\x0c' || c == '\x1c' || c == '\x1d' || c == '\x1e'
    || c == '\u0085' || c == ' ' || c == ' '

-- A line of a text and the characters that end it, of which the last line may have none.
structure Line where
  content : List Char
  ending : List Char
deriving DecidableEq, Repr

-- `read` holds the characters of the current line that were read already, the latest first.
def cutLinesFrom (read : List Char) : List Char → List Line
  | [] => if read.isEmpty then [] else [⟨read.reverse, []⟩]
  | '\r' :: '\n' :: rest => ⟨read.reverse, ['\r', '\n']⟩ :: cutLinesFrom [] rest
  | c :: rest =>
    if isLineBreak c then ⟨read.reverse, [c]⟩ :: cutLinesFrom [] rest
    else cutLinesFrom (c :: read) rest

-- The lines of a text with their ends.
def cutLines (cs : List Char) : List Line :=
  cutLinesFrom [] cs

def lines (cs : List Char) : List (List Char) :=
  (cutLines cs).map (·.content)

-- Every line end that uses a carriage return becomes a line feed.
def unifyLineEnds : List Char → List Char
  | [] => []
  | '\r' :: '\n' :: rest => '\n' :: unifyLineEnds rest
  | c :: rest => (if c = '\r' then '\n' else c) :: unifyLineEnds rest

end CardLore.Text
