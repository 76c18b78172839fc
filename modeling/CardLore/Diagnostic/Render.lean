import CardLore.Diagnostic.Basic
import CardLore.Highlight.Colour

namespace CardLore

-- How diagnostics are shown: with colours or without, and where source lines come from.
structure Renderer where
  colour : Bool
  sourceLine? : (file : String) → (line : Nat) → Option (List Char)

def Severity.colour : Severity → String
  | error => "\x1b[1;31m"
  | warning => "\x1b[1;33m"
  | note => "\x1b[1;36m"

namespace Renderer

def bold : String := "\x1b[1m"

def blue : String := "\x1b[1;34m"

def plain : String := "\x1b[0m"

-- A text in a colour, if colours are on.
def painted (r : Renderer) (code : String) (t : Text) : Text :=
  if r.colour then Text.concat [code, t, plain] else t

-- A text flush right in four columns.
def gutter (n : Nat) : String :=
  let digits := toString n
  String.ofList (List.replicate (4 - digits.length) ' ') ++ digits

-- A line that starts with the bar on the left.
def barred (r : Renderer) (before : String) (rest : Text) : Text :=
  Text.concat ["  ", r.painted blue (before ++ " |"), rest]

def shownLine (r : Renderer) (cs : List Char) : Text :=
  Text.ofChars (if r.colour then Highlight.line cs else cs)

-- The markers stand under the columns of the span; a span over several lines has none.
def markerLines (r : Renderer) (severity : Severity) (label : Label) : List Text :=
  let span := label.span
  if span.startLine = span.endLine then
    let marker := if label.style = .primary then '^' else '-'
    let markers := List.replicate (max 1 (span.endCol + 1 - span.startCol)) marker
    [r.barred "  " (Text.concat
      [" ", Text.ofChars (List.replicate (span.startCol - 1) ' '),
        r.painted severity.colour (Text.ofChars markers)])]
  else []

def labelLines (r : Renderer) (severity : Severity) (label : Label) : List Text :=
  let span := label.span
  let place := Text.concat ["  ", r.painted blue "-->", " ", span.location]
  let source := match r.sourceLine? span.file span.startLine with
    | some cs => [r.barred (gutter span.startLine) (Text.concat [" ", r.shownLine cs])]
    | none => []
  let remark := if label.message.isEmpty then []
    else [r.barred "  " (Text.concat ["   ", r.painted severity.colour label.message])]
  [place, r.barred "  " []] ++ source ++ r.markerLines severity label ++ remark

def heading (r : Renderer) (d : Diagnostic) : Text :=
  Text.concat [r.painted d.severity.colour s!"{d.severity.name}[{d.code}]",
    r.painted bold (Text.concat [": ", d.message])]

def noteLine (r : Renderer) (note : Text) : Text :=
  Text.concat ["  ", r.painted blue "=", " note: ", note]

def render (r : Renderer) (d : Diagnostic) : Text :=
  Text.join "\n"
    (r.heading d :: d.labels.flatMap (r.labelLines d.severity) ++ d.notes.map r.noteLine)

end Renderer

end CardLore
