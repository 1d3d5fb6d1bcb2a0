import BlockTrace.CommandLine.Arguments
import BlockTrace.CommandLine.Command
import BlockTrace.Condition.Comparison
import BlockTrace.Condition.Evaluation
import BlockTrace.Condition.Operator
import BlockTrace.Decimal.Double
import BlockTrace.Decimal.Shortest
import BlockTrace.Expression.Evaluation
import BlockTrace.Expression.Fault
import BlockTrace.Json.Number
import BlockTrace.Json.Reader
import BlockTrace.Json.Text
import BlockTrace.Json.Value
import BlockTrace.Json.Writer
import BlockTrace.Main
import BlockTrace.Program.Block
import BlockTrace.Program.Load
import BlockTrace.Program.Parameters
import BlockTrace.Program.Saved
import BlockTrace.Program.Shape
import BlockTrace.Report.Faults
import BlockTrace.Report.Layout
import BlockTrace.Run.Action
import BlockTrace.Run.Engine
import BlockTrace.Run.Fault
import BlockTrace.Run.Session
import BlockTrace.Run.State
import BlockTrace.Store.Basic
import BlockTrace.Store.Cells
import BlockTrace.Text.Alphanumeric
import BlockTrace.Text.Blank
import BlockTrace.Text.Control
import BlockTrace.Text.Cursor
import BlockTrace.Text.Lines
import BlockTrace.Text.Numeral
import BlockTrace.Text.Quoted
import BlockTrace.Text.Ranges
import BlockTrace.Text.Span
import BlockTrace.Text.Visible
import BlockTrace.Proofs.Expression.Tokens
import BlockTrace.Proofs.Expression.Grammar
import BlockTrace.Proofs.Expression.Routines
import BlockTrace.Proofs.Expression.Derivation
import BlockTrace.Proofs.Run.Effects
import BlockTrace.Proofs.Run.Fuel
import BlockTrace.Proofs.Run.Refinement
import BlockTrace.Proofs.Run.Step
import BlockTrace.Proofs.Run.Budget
import BlockTrace.Proofs.Run.RaisedLimits
import BlockTrace.Proofs.Store.Memory
import BlockTrace.Proofs.Run.Replay
import BlockTrace.Proofs.Condition.Reading
import BlockTrace.Proofs.Json.Grammar
import BlockTrace.Proofs.Json.Scalars
import BlockTrace.Proofs.Json.Collections
import BlockTrace.Proofs.Json.Documents
import BlockTrace.Proofs.Decimal.Rounding
import BlockTrace.Proofs.Decimal.Scaling
import BlockTrace.Proofs.Json.Range
import BlockTrace.Proofs.Json.Raw
import BlockTrace.Proofs.Json.Unambiguous
import BlockTrace.Proofs.Program.Loading
import BlockTrace.Proofs.Json.Written
import BlockTrace.Proofs.Program.Saving
import BlockTrace.Proofs.Run.Changes
import BlockTrace.Proofs.Run.Growth
import BlockTrace.Proofs.Run.History
import BlockTrace.Proofs.Run.Interrupt
import BlockTrace.Proofs.Expression.Spans
import BlockTrace.Proofs.Run.Footprint
import BlockTrace.Proofs.Run.ArrayContents
import BlockTrace.Proofs.Expression.Prefixes
import BlockTrace.Proofs.Expression.Lockstep
import BlockTrace.Proofs.Expression.Spacing
import BlockTrace.Proofs.Expression.LookAhead
import BlockTrace.Proofs.Program.Resaving
import BlockTrace.Proofs.Run.MissingElse
import BlockTrace.Proofs.Text.Trimming
import BlockTrace.Proofs.Condition.Cut
import BlockTrace.Proofs.Condition.Spans
import BlockTrace.Proofs.Run.Declarations
import BlockTrace.Proofs.Run.FailedSteps
import BlockTrace.Proofs.Run.ErrorLines
import BlockTrace.Proofs.Expression.Exact
import BlockTrace.Proofs.Condition.Names
import BlockTrace.Proofs.Program.Spelling
import BlockTrace.Proofs.CommandLine.JsonTrace
import BlockTrace.Proofs.Expression.Reader
import BlockTrace.Proofs.Expression.Progress
import BlockTrace.Proofs.Program.Integers
