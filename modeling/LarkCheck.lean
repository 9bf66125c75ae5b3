import LarkCheck.CommandLine.Options
import LarkCheck.CommandLine.Pool
import LarkCheck.CommandLine.Run
import LarkCheck.Decimal.Double
import LarkCheck.Decimal.Shortest
import LarkCheck.Diagnostic.Code
import LarkCheck.Diagnostic.Log
import LarkCheck.Grammar.Expression
import LarkCheck.Grammar.Parser
import LarkCheck.Grammar.Statement
import LarkCheck.Main
import LarkCheck.Report
import LarkCheck.Scope.Basic
import LarkCheck.Scope.Resolution
import LarkCheck.Source.Encoding
import LarkCheck.Source.File
import LarkCheck.Source.Scalar
import LarkCheck.Source.Units
import LarkCheck.Source.Utf8
import LarkCheck.Text.Blank
import LarkCheck.Text.Lines
import LarkCheck.Text.Location
import LarkCheck.Text.Quoted
import LarkCheck.Text.Visible
import LarkCheck.Token.Kind
import LarkCheck.Token.Lexeme
import LarkCheck.Token.Reading
import LarkCheck.Tree.Basic
import LarkCheck.Tree.Check
import LarkCheck.Tree.Form
import LarkCheck.Tree.Nodes
import LarkCheck.Tree.Visit
import LarkCheck.Vocabulary.Keyword
import LarkCheck.Vocabulary.Operator
import LarkCheck.Vocabulary.Punctuation
import LarkCheck.Proofs.Grammar.Success
import LarkCheck.Proofs.Grammar.Spans
import LarkCheck.Proofs.Grammar.Yield
import LarkCheck.Proofs.Grammar.Nodes
import LarkCheck.Proofs.Grammar.Depth
import LarkCheck.Proofs.Grammar.Complete
import LarkCheck.Proofs.Scope.Lookup
import LarkCheck.Proofs.Scope.Mention
import LarkCheck.Proofs.Scope.Undeclared
import LarkCheck.Proofs.Grammar.FailFast
import LarkCheck.Proofs.Tree.Gaps
import LarkCheck.Proofs.Report.Accountable
import LarkCheck.Proofs.Report.Gapless
import LarkCheck.Proofs.Source.Exact
import LarkCheck.Proofs.Source.FirstFault
import LarkCheck.Proofs.Token.LineEnds
import LarkCheck.Proofs.Grammar.Compose
import LarkCheck.Proofs.Grammar.Viable
import LarkCheck.Proofs.CommandLine.Interleaving
import LarkCheck.Proofs.CommandLine.Agreement
import LarkCheck.Proofs.Scope.Nesting
import LarkCheck.Proofs.Token.LongestMatch
import LarkCheck.Proofs.Token.Joined
import LarkCheck.Proofs.Token.Progress
import LarkCheck.Proofs.Token.Places
import LarkCheck.Proofs.Report.RuleOrder
import LarkCheck.Proofs.Tree.Coverage
import LarkCheck.Proofs.Tree.Missing
import LarkCheck.Proofs.Report.Outcome
import LarkCheck.Proofs.Scope.Stable
import LarkCheck.Proofs.Scope.Independent
import LarkCheck.Proofs.Token.Blanked
import LarkCheck.Proofs.Grammar.Placement.Productions
import LarkCheck.Proofs.Grammar.Dump
import LarkCheck.Proofs.Token.Integers
import LarkCheck.Proofs.Token.Words
import LarkCheck.Proofs.Grammar.Counters
import LarkCheck.Proofs.Grammar.Balance
import LarkCheck.Proofs.Grammar.Levels
import LarkCheck.Proofs.Grammar.Progress
