import RuleLang.Command.Arguments
import RuleLang.Command.Help
import RuleLang.Command.Run
import RuleLang.Command.Suggestion
import RuleLang.Cursor
import RuleLang.Decimal.Double
import RuleLang.Decimal.Layout
import RuleLang.Decimal.Reading
import RuleLang.Decimal.Shortest
import RuleLang.Diagnostic
import RuleLang.Diagnostic.Record
import RuleLang.Directory
import RuleLang.Grammar.Expression
import RuleLang.Grammar.Fault
import RuleLang.Grammar.Goal
import RuleLang.Grammar.Statement
import RuleLang.Json
import RuleLang.Json.Printer
import RuleLang.Main
import RuleLang.Moment
import RuleLang.Node
import RuleLang.Node.Printer
import RuleLang.Node.Record
import RuleLang.Node.Walk
import RuleLang.Number
import RuleLang.Options
import RuleLang.Options.File
import RuleLang.Options.Schema
import RuleLang.Parse
import RuleLang.Path
import RuleLang.Position
import RuleLang.Proofs.Agreement
import RuleLang.Proofs.Command.Requests
import RuleLang.Proofs.Command.TokenLines
import RuleLang.Proofs.Commands
import RuleLang.Proofs.Consumers
import RuleLang.Proofs.Decimal.Nearest
import RuleLang.Proofs.Decimal.Notation
import RuleLang.Proofs.Decimal.Rounding
import RuleLang.Proofs.Decimal.Shortest
import RuleLang.Proofs.Extents
import RuleLang.Proofs.Files
import RuleLang.Proofs.Grammar.Acceptance
import RuleLang.Proofs.Grammar.Alike
import RuleLang.Proofs.Grammar.Calls
import RuleLang.Proofs.Grammar.Completeness
import RuleLang.Proofs.Grammar.Confinement
import RuleLang.Proofs.Grammar.Conveyed
import RuleLang.Proofs.Grammar.Depth
import RuleLang.Proofs.Grammar.Derivation
import RuleLang.Proofs.Grammar.Extents
import RuleLang.Proofs.Grammar.Leftover
import RuleLang.Proofs.Grammar.Levels
import RuleLang.Proofs.Grammar.Limits
import RuleLang.Proofs.Grammar.Lookahead
import RuleLang.Proofs.Grammar.Phrases
import RuleLang.Proofs.Grammar.Prefixes
import RuleLang.Proofs.Grammar.Printed
import RuleLang.Proofs.Grammar.Raising
import RuleLang.Proofs.Grammar.Recovery
import RuleLang.Proofs.Grammar.Soundness
import RuleLang.Proofs.Grammar.Steps
import RuleLang.Proofs.Grammar.Trees
import RuleLang.Proofs.Grammar.Unambiguity
import RuleLang.Proofs.Grammar.Written
import RuleLang.Proofs.Json.Numerals
import RuleLang.Proofs.Json.Printable
import RuleLang.Proofs.Json.Reader
import RuleLang.Proofs.Json.RoundTrip
import RuleLang.Proofs.Json.Weight
import RuleLang.Proofs.Lines
import RuleLang.Proofs.Located
import RuleLang.Proofs.Merging
import RuleLang.Proofs.Names
import RuleLang.Proofs.Node.Aspect
import RuleLang.Proofs.Node.Conveyed
import RuleLang.Proofs.Node.Dump
import RuleLang.Proofs.Node.Numbers
import RuleLang.Proofs.Node.Parts
import RuleLang.Proofs.Node.Records
import RuleLang.Proofs.Node.Shape
import RuleLang.Proofs.Node.Traversal
import RuleLang.Proofs.Node.WellFormed
import RuleLang.Proofs.Node.Words
import RuleLang.Proofs.Normalization
import RuleLang.Proofs.Options.Admission
import RuleLang.Proofs.Options.Loading
import RuleLang.Proofs.Options.Values
import RuleLang.Proofs.Parentheses
import RuleLang.Proofs.Places
import RuleLang.Proofs.Reports
import RuleLang.Proofs.RoundTrip
import RuleLang.Proofs.Sessions
import RuleLang.Proofs.Slices
import RuleLang.Proofs.Staircase
import RuleLang.Proofs.Text.Conveyed
import RuleLang.Proofs.Text.Utf8
import RuleLang.Proofs.Token.Conveyed
import RuleLang.Proofs.Token.Cutting
import RuleLang.Proofs.Token.Faults
import RuleLang.Proofs.Token.Flaws
import RuleLang.Proofs.Token.Lexing
import RuleLang.Proofs.Token.LineBreaks
import RuleLang.Proofs.Token.Literals
import RuleLang.Proofs.Token.Munch
import RuleLang.Proofs.Token.Rules
import RuleLang.Proofs.Token.Spacing
import RuleLang.Proofs.Token.Spelling
import RuleLang.Proofs.Token.Tiling
import RuleLang.Proofs.Token.WellMade
import RuleLang.Proofs.Token.Words
import RuleLang.Session
import RuleLang.Setting
import RuleLang.Span
import RuleLang.Text.Blank
import RuleLang.Text.Letter
import RuleLang.Text.Printable
import RuleLang.Text.Quoted
import RuleLang.Text.Ranges
import RuleLang.Text.Separated
import RuleLang.Text.Similarity
import RuleLang.Text.Terminal
import RuleLang.Text.Utf8
import RuleLang.Token
import RuleLang.Token.Lexer
import RuleLang.Token.Word
import RuleLang.TokenStream
import RuleLang.Version
import RuleLang.Yaml.Cursor
import RuleLang.Yaml.Fault
import RuleLang.Yaml.Lexeme
import RuleLang.Yaml.Moment
import RuleLang.Yaml.Number
import RuleLang.Yaml.Resolution
import RuleLang.Yaml.Scalar
import RuleLang.Yaml.Tree
