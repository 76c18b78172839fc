import CardLore.Highlight.Token

namespace CardLore.Highlight

-- What switches the colour of a kind of token on.
def TokenKind.colour? : TokenKind → Option String
  | lineComment | blockComment | whitespace => some "\x1b[37m"
  | keyword | constant | declaration | structural | modifier => some "\x1b[34m"
  | decorator => some "\x1b[90m"
  | string | escape => some "\x1b[33m"
  | integer | float => some "\x1b[34m"
  | error => some "\x1b[04m\x1b[91m"
  | text | name | operator | punctuation => none

-- What switches every colour off.
def reset : String := "\x1b[39;49;00m"

def paint (colour : Option String) (cs : List Char) : List Char :=
  match colour with
  | some code => code.toList ++ cs ++ reset.toList
  | none => cs

-- A line feed stays outside of the colour; other line ends are coloured with their lines.
def paintLine (colour : Option String) (line : Text.Line) : List Char :=
  if line.ending = ['\n'] then paint colour line.content ++ ['\n']
  else paint colour (line.content ++ line.ending)

def paintToken (token : Token) : List Char :=
  (Text.cutLines token.content).flatMap (paintLine token.kind.colour?)

def line (cs : List Char) : List Char :=
  let painted := (tokens cs).flatMap paintToken
  (painted.reverse.dropWhile (· == '\n')).reverse

end CardLore.Highlight
