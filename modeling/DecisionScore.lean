import DecisionScore.Analysis
import DecisionScore.Command
import DecisionScore.Main
import DecisionScore.Report
import DecisionScore.Wire
import DecisionScore.Proofs.Python.Site
import DecisionScore.Proofs.Python.Traversal
import DecisionScore.Proofs.Python.History
import DecisionScore.Proofs.Python.Shape
import DecisionScore.Proofs.Python.Tour
import DecisionScore.Proofs.Python.Scores
import DecisionScore.Proofs.Grammar.Bodies
import DecisionScore.Proofs.Grammar.Openings
import DecisionScore.Proofs.Grammar.Readings
import DecisionScore.Proofs.Python.Phrases
import DecisionScore.Proofs.Grammar.Numbering
import DecisionScore.Proofs.Python.Parsed
import DecisionScore.Proofs.Breakdown
import DecisionScore.Proofs.Words
import DecisionScore.Proofs.Replay
import DecisionScore.Proofs.Merge
import DecisionScore.Proofs.Brace.Lines
import DecisionScore.Proofs.Brace.Sound
import DecisionScore.Proofs.Python.WorkList
import DecisionScore.Proofs.Python.Sound
import DecisionScore.Proofs.Python.Budget
import DecisionScore.Proofs.Python.Words
import DecisionScore.Proofs.Python.Totals
import DecisionScore.Proofs.Python.Scopes
import DecisionScore.Proofs.Analysis
import DecisionScore.Proofs.Discovery
import DecisionScore.Proofs.Scan
import DecisionScore.Proofs.Text
import DecisionScore.Proofs.Pattern
import DecisionScore.Proofs.Spelling
import DecisionScore.Proofs.Report
import DecisionScore.Proofs.Command
import DecisionScore.Proofs.Python.Nesting
import DecisionScore.Proofs.Python.Search
import DecisionScore.Proofs.Python.Statements
import DecisionScore.Proofs.Brace.Blocks
import DecisionScore.Proofs.Brace.Layout
import DecisionScore.Proofs.Brace.Notes
import DecisionScore.Proofs.Brace.Windows
import DecisionScore.Proofs.Brace.Renumbering
import DecisionScore.Proofs.Brace.Concatenation
import DecisionScore.Proofs.Brace.Spacing
import DecisionScore.Proofs.Brace.Heads
import DecisionScore.Proofs.Brace.Exclusions
import DecisionScore.Proofs.Brace.Control
import DecisionScore.Proofs.Brace.Budget
import DecisionScore.Proofs.Brace.Words
import DecisionScore.Proofs.Brace.Groups
import DecisionScore.Proofs.Brace.Tokens
import DecisionScore.Proofs.Json
import DecisionScore.Proofs.Wire
import DecisionScore.Proofs.Python.Tidy
import DecisionScore.Proofs.Python.Extras
import DecisionScore.Proofs.Python.Weights
import DecisionScore.Proofs.Python.Renaming
import DecisionScore.Proofs.Python.Operators
import DecisionScore.Proofs.Python.Places
import DecisionScore.Proofs.Python.Rows
import DecisionScore.Proofs.Heat
