import CardLore.Calendar
import CardLore.Command.Arguments
import CardLore.Command.Check
import CardLore.Command.Log
import CardLore.Command.New
import CardLore.Command.Program
import CardLore.Command.Session
import CardLore.Command.Usage
import CardLore.Command.View
import CardLore.Compilation
import CardLore.Component.Basic
import CardLore.Component.Enumeration
import CardLore.Component.Inherit
import CardLore.Component.Parts
import CardLore.Construction.Aspect
import CardLore.Construction.Card
import CardLore.Construction.Deck
import CardLore.Construction.Draft
import CardLore.Construction.Ending
import CardLore.Construction.Legacy
import CardLore.Construction.Recipe
import CardLore.Construction.Verb
import CardLore.Corpus
import CardLore.Decimal.Nearest
import CardLore.Decimal.Shortest
import CardLore.Declaration.Basic
import CardLore.Declaration.Component
import CardLore.Declaration.Parser
import CardLore.Diagnostic.Basic
import CardLore.Diagnostic.Offence
import CardLore.Diagnostic.Render
import CardLore.Files.Discovery
import CardLore.Files.Path
import CardLore.Files.Sources
import CardLore.Files.Tree
import CardLore.Highlight.Colour
import CardLore.Highlight.Token
import CardLore.Key
import CardLore.Kind
import CardLore.Literal.Basic
import CardLore.Literal.Display
import CardLore.Literal.Number
import CardLore.Literal.Parser
import CardLore.Main
import CardLore.Merge.Basic
import CardLore.Merge.Conflict
import CardLore.Merge.Definition
import CardLore.Parser.Basic
import CardLore.Parser.Delimited
import CardLore.Parser.Script
import CardLore.Parser.Token
import CardLore.Parser.Trivia
import CardLore.Probability
import CardLore.Project.Config
import CardLore.Project.Scaffold
import CardLore.Proofs.Choice.Basic
import CardLore.Proofs.Choice.Statement
import CardLore.Proofs.Choice.Undisputed
import CardLore.Proofs.Comments.File
import CardLore.Proofs.Compilation.Conclusion
import CardLore.Proofs.Compilation.Deck
import CardLore.Proofs.Compilation.Leftover
import CardLore.Proofs.Compilation.NumberOrName
import CardLore.Proofs.Construction.Described
import CardLore.Proofs.Construction.EndingBody
import CardLore.Proofs.Construction.Faithful
import CardLore.Proofs.Course.Basic
import CardLore.Proofs.Course.Layout
import CardLore.Proofs.Course.Text
import CardLore.Proofs.Files.Discovery
import CardLore.Proofs.Files.Tree
import CardLore.Proofs.Grammar.Exact
import CardLore.Proofs.Highlight.Agreement
import CardLore.Proofs.Highlight.Token
import CardLore.Proofs.Merge.Addition
import CardLore.Proofs.Merge.Attributes
import CardLore.Proofs.Merge.Calls
import CardLore.Proofs.Merge.Inheritance
import CardLore.Proofs.Merge.Order
import CardLore.Proofs.Merge.Placement
import CardLore.Proofs.Merge.Regrouping
import CardLore.Proofs.Merge.Reports
import CardLore.Proofs.Mismatch.Raised
import CardLore.Proofs.Mismatch.Script
import CardLore.Proofs.Progress.Basic
import CardLore.Proofs.Progress.Loop
import CardLore.Proofs.Progress.Reading
import CardLore.Proofs.Project.Created
import CardLore.Proofs.Project.Scaffold
import CardLore.Proofs.Project.Source
import CardLore.Proofs.Reading.File
import CardLore.Proofs.Rendering.Colour
import CardLore.Proofs.Rendering.Markers
import CardLore.Proofs.Source.Correspondence
import CardLore.Proofs.Source.Lines
import CardLore.Proofs.Source.Spans
import CardLore.Proofs.Text.Utf8
import CardLore.Proofs.Trivia.LongestRun
import CardLore.Source.LineIndex
import CardLore.Source.Span
import CardLore.Statement.Basic
import CardLore.Statement.Block
import CardLore.Statement.Parser
import CardLore.Text.Blank
import CardLore.Text.Boundaries
import CardLore.Text.Cased
import CardLore.Text.CodePoint
import CardLore.Text.ControlSequence
import CardLore.Text.Digit
import CardLore.Text.Lines
import CardLore.Text.Lower
import CardLore.Text.Printable
import CardLore.Text.Quoted
import CardLore.Text.Utf8
import CardLore.Text.Word
import CardLore.Toml.Basic
import CardLore.Toml.Display
import CardLore.Toml.Document
import CardLore.Toml.Moment
import CardLore.Toml.Scalar
import CardLore.Toml.Table
import CardLore.Toml.Value
import CardLore.View.Basic
import CardLore.View.Component
import CardLore.View.Corpus
import CardLore.View.Declaration
