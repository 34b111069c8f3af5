import KCompiler.Command.Arguments
import KCompiler.Command.Directory
import KCompiler.Command.Run
import KCompiler.Compilation
import KCompiler.Diagnostic.Basic
import KCompiler.Diagnostic.Collector
import KCompiler.Diagnostic.Issue
import KCompiler.Diagnostic.Render
import KCompiler.Emit.Escape
import KCompiler.Emit.Header
import KCompiler.Emit.Includes
import KCompiler.Emit.Naming
import KCompiler.Emit.Statement
import KCompiler.Log
import KCompiler.Main
import KCompiler.Number.Binary64
import KCompiler.Number.Decimal
import KCompiler.Number.Integer
import KCompiler.Number.Shortest
import KCompiler.Parse.Declaration
import KCompiler.Parse.Expression
import KCompiler.Parse.Outcome
import KCompiler.Parse.Program
import KCompiler.Parse.Recovery
import KCompiler.Parse.Run
import KCompiler.Parse.Sequence
import KCompiler.Parse.Statement
import KCompiler.Parse.TypeExpr
import KCompiler.Proofs.Acceptance
import KCompiler.Proofs.Braces.Files
import KCompiler.Proofs.Braces.Parsers
import KCompiler.Proofs.Braces.Recovery
import KCompiler.Proofs.CReader.Expression
import KCompiler.Proofs.CReader.Literals
import KCompiler.Proofs.CReader.Reading
import KCompiler.Proofs.CReader.Spelling
import KCompiler.Proofs.CReader.Words
import KCompiler.Proofs.Completeness.Expression
import KCompiler.Proofs.Completeness.Module
import KCompiler.Proofs.Completeness.Statement
import KCompiler.Proofs.Diagnosis.Collecting
import KCompiler.Proofs.Diagnosis.History
import KCompiler.Proofs.Diagnosis.Lines
import KCompiler.Proofs.Diagnosis.Reporting
import KCompiler.Proofs.Diagnosis.Spans
import KCompiler.Proofs.Diagnosis.Switches
import KCompiler.Proofs.Emission.AtSigns
import KCompiler.Proofs.Emission.Headers
import KCompiler.Proofs.Emission.Lexicon
import KCompiler.Proofs.Emission.Lines
import KCompiler.Proofs.Emission.Meaning
import KCompiler.Proofs.Emission.Reparsing
import KCompiler.Proofs.Emission.Target
import KCompiler.Proofs.Emission.Walk
import KCompiler.Proofs.Equations
import KCompiler.Proofs.Failure
import KCompiler.Proofs.GivingUp
import KCompiler.Proofs.Grammar
import KCompiler.Proofs.Grammar.Closure
import KCompiler.Proofs.Grammar.Replacement
import KCompiler.Proofs.Invariant.Basic
import KCompiler.Proofs.Invariant.Parsers
import KCompiler.Proofs.Ladder.Agreement
import KCompiler.Proofs.Ladder.Basic
import KCompiler.Proofs.Ladder.Operators
import KCompiler.Proofs.Lexing.Cursors
import KCompiler.Proofs.Lexing.Joining
import KCompiler.Proofs.Lexing.Layout
import KCompiler.Proofs.Lexing.Lookahead
import KCompiler.Proofs.Lexing.Munch
import KCompiler.Proofs.Lexing.Operators
import KCompiler.Proofs.Lexing.Places
import KCompiler.Proofs.Lexing.Rules
import KCompiler.Proofs.Lexing.Scanning
import KCompiler.Proofs.Lexing.Spacing
import KCompiler.Proofs.Lexing.Spelling
import KCompiler.Proofs.Lexing.Tiling
import KCompiler.Proofs.Lexing.Tokens
import KCompiler.Proofs.Locality
import KCompiler.Proofs.Lockstep.Basic
import KCompiler.Proofs.Lockstep.Declaration
import KCompiler.Proofs.Lockstep.Expression
import KCompiler.Proofs.Lockstep.Statement
import KCompiler.Proofs.Number.Integers
import KCompiler.Proofs.Number.Neighbours
import KCompiler.Proofs.Number.Shortest
import KCompiler.Proofs.Number.Written
import KCompiler.Proofs.Outcome
import KCompiler.Proofs.Outline.Declarations
import KCompiler.Proofs.Outline.Nodes
import KCompiler.Proofs.Outline.Quoted
import KCompiler.Proofs.Outline.Source
import KCompiler.Proofs.Outline.Texts
import KCompiler.Proofs.Outline.Trees
import KCompiler.Proofs.Placement
import KCompiler.Proofs.Printing
import KCompiler.Proofs.Progress.Advance
import KCompiler.Proofs.Progress.Basic
import KCompiler.Proofs.Progress.Complete
import KCompiler.Proofs.Progress.Orderly
import KCompiler.Proofs.RoundTrip.Basic
import KCompiler.Proofs.RoundTrip.Declaration
import KCompiler.Proofs.RoundTrip.Expression
import KCompiler.Proofs.RoundTrip.Module
import KCompiler.Proofs.RoundTrip.Statement
import KCompiler.Proofs.Soundness.Basic
import KCompiler.Proofs.Soundness.Declaration
import KCompiler.Proofs.Soundness.Expression
import KCompiler.Proofs.Soundness.Module
import KCompiler.Proofs.Soundness.Statement
import KCompiler.Proofs.StatementLoop
import KCompiler.Proofs.Style.BlankLines
import KCompiler.Proofs.Style.Matching
import KCompiler.Proofs.Style.Partners
import KCompiler.Proofs.Style.Removal
import KCompiler.Proofs.Trees.Declarations
import KCompiler.Proofs.Trees.Leaves
import KCompiler.Proofs.Trees.Parsed
import KCompiler.Proofs.Trees.Source
import KCompiler.Proofs.Validation
import KCompiler.Proofs.WellFormed
import KCompiler.Source.Cursor
import KCompiler.Source.Location
import KCompiler.Style
import KCompiler.Text.Layout
import KCompiler.Text.Letter
import KCompiler.Text.Numeral
import KCompiler.Text.Quoted
import KCompiler.Text.Ranges
import KCompiler.Text.Unseen
import KCompiler.Text.Upper
import KCompiler.Token.Basic
import KCompiler.Token.Kind
import KCompiler.Token.Lexeme
import KCompiler.Token.Lexer
import KCompiler.Token.Value
import KCompiler.Tree.Basic
import KCompiler.Tree.Modifier
import KCompiler.Tree.Operator
import KCompiler.Tree.Outline
