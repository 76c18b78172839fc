import CardLore.Source.Span
import CardLore.Text.CodePoint

namespace CardLore

inductive Severity where
  | error
  | warning
  | note
deriving DecidableEq, Repr

def Severity.name : Severity → String
  | error => "error"
  | warning => "warning"
  | note => "note"

-- Whether a label marks the problem itself or a place that explains it.
inductive LabelStyle where
  | primary
  | secondary
deriving DecidableEq, Repr

structure Label where
  span : Span
  message : Text
  style : LabelStyle
deriving DecidableEq, Repr

structure Diagnostic where
  severity : Severity
  code : String
  message : Text
  labels : List Label
  notes : List Text
deriving DecidableEq, Repr

namespace Label

def primary (span : Span) : Label := ⟨span, [], .primary⟩

def secondary (span : Span) (message : Text) : Label := ⟨span, message, .secondary⟩

end Label

namespace Diagnostic

-- An error with one place.
def errorAt (code : String) (message : Text) (span : Span) : Diagnostic :=
  ⟨.error, code, message, [.primary span], []⟩

-- The file that a diagnostic belongs to: that of its first primary label, else of its first label.
def file? (d : Diagnostic) : Option String :=
  match d.labels.find? (·.style = .primary) with
  | some label => some label.span.file
  | none => d.labels.head?.map (·.span.file)

-- The file as lists of errors name it. An empty name says as little as none.
def fileName (d : Diagnostic) : String :=
  match d.file? with
  | some name => if name.isEmpty then "<unknown>" else name
  | none => "<unknown>"

-- Code and message in one line.
def summary (d : Diagnostic) : Text :=
  Text.concat [d.code, ": ", d.message]

def joined (errors : List Diagnostic) : Text :=
  Text.concat [s!"{errors.length} error(s): ", Text.join "; " (errors.map (·.message))]

end Diagnostic

end CardLore
