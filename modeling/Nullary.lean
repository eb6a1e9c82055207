import Nullary.Command.Arguments
import Nullary.Command.Run
import Nullary.Constructor.Attribute
import Nullary.Constructor.Text
import Nullary.Constructor.Tokens
import Nullary.Decimal.Shortest
import Nullary.Declaration.Basic
import Nullary.Declaration.Json
import Nullary.Declaration.Modifiers
import Nullary.Environment.Basic
import Nullary.Environment.Placeholder
import Nullary.Environment.VariableFile
import Nullary.Expansion.Basic
import Nullary.Expansion.Placement
import Nullary.Failure
import Nullary.Files.Path
import Nullary.Files.Tree
import Nullary.Files.Workspace
import Nullary.Grammar.Basic
import Nullary.Grammar.Expression
import Nullary.Grammar.Function
import Nullary.Grammar.Generics
import Nullary.Grammar.Item
import Nullary.Grammar.Operator
import Nullary.Grammar.Parser
import Nullary.Grammar.Path
import Nullary.Grammar.Pattern
import Nullary.Grammar.Source
import Nullary.Grammar.Statement
import Nullary.Grammar.Type
import Nullary.Item.Basic
import Nullary.Item.Lowering
import Nullary.Item.Marker
import Nullary.Json.Decode
import Nullary.Json.Document
import Nullary.Json.Number
import Nullary.Json.Value
import Nullary.Main
import Nullary.Scan.Basic
import Nullary.Scan.Report
import Nullary.Settings.Basic
import Nullary.Settings.Load
import Nullary.Settings.Template
import Nullary.Settings.Toml
import Nullary.Source.Edit
import Nullary.Source.Position
import Nullary.Source.Text
import Nullary.Text.Blank
import Nullary.Text.Identifier
import Nullary.Text.Quoted
import Nullary.Text.Ranges
import Nullary.Token.Lexer
import Nullary.Token.Literal
import Nullary.Token.Tree
import Nullary.Toml.Parser
import Nullary.Toml.Scalar
import Nullary.Toml.Value
import Nullary.Verdict.Diagnostic
import Nullary.Verdict.Json
import Nullary.Verdict.Outcome
import Nullary.Verdict.Request
import Nullary.Proofs.Expansion.Duplicates
import Nullary.Proofs.Expansion.Hosts
import Nullary.Proofs.Expansion.Marked
import Nullary.Proofs.Expansion.Placements
import Nullary.Proofs.Expansion.Removal
import Nullary.Proofs.Expansion.Splicing
import Nullary.Proofs.Expansion.Verdicts
import Nullary.Proofs.Grammar.Landmarks
import Nullary.Proofs.Grammar.Placing
import Nullary.Proofs.Item.Decision
import Nullary.Proofs.Source.Fitting
import Nullary.Proofs.Source.Position
import Nullary.Proofs.Source.Size
import Nullary.Proofs.Source.Splice
import Nullary.Proofs.Text.Quoted
import Nullary.Proofs.Token.Layout
import Nullary.Proofs.Json.Reading
import Nullary.Proofs.Json.Readable
import Nullary.Proofs.Declaration.Json
import Nullary.Proofs.Verdict.Request
import Nullary.Proofs.Expansion.Refusals
import Nullary.Proofs.Expansion.Repetition
import Nullary.Proofs.Steps
import Nullary.Proofs.Verdict.Growth
import Nullary.Proofs.Files.Workspace
import Nullary.Proofs.Command.Effects
import Nullary.Proofs.Files.Path
import Nullary.Proofs.Scan.Collection
import Nullary.Proofs.Command.Agreement
import Nullary.Proofs.Files.Entries
import Nullary.Proofs.Scan.Report
import Nullary.Proofs.Expansion.Ranges
import Nullary.Proofs.Token.Spelling
import Nullary.Proofs.Token.Words
import Nullary.Proofs.Constructor.Body
import Nullary.Proofs.Grammar.Echo.Basic
import Nullary.Proofs.Grammar.Echo.Expressions
import Nullary.Proofs.Grammar.Echo.Functions
import Nullary.Proofs.Grammar.Echo.Items
import Nullary.Proofs.Token.Cutting.Lexeme
import Nullary.Proofs.Environment.Placeholder
import Nullary.Proofs.Environment.Substitution
import Nullary.Proofs.Expansion.Insertion
import Nullary.Proofs.Expansion.Reports
import Nullary.Proofs.Settings.Resolution
import Nullary.Proofs.Constructor.Header
import Nullary.Proofs.Expansion.Invariance
import Nullary.Proofs.Settings.Lookup
import Nullary.Proofs.Json.Spelling
import Nullary.Proofs.Declaration.Spelling
import Nullary.Proofs.Verdict.Spelling
import Nullary.Proofs.Names
import Nullary.Proofs.Source.Exchange
import Nullary.Proofs.Source.Numbering
