import TrialLoop.Command.Basic
import TrialLoop.Command.Words
import TrialLoop.Condition.Basic
import TrialLoop.Condition.Piece
import TrialLoop.Experiment.Arguments
import TrialLoop.Experiment.Basic
import TrialLoop.Expr.Basic
import TrialLoop.Expr.Eval
import TrialLoop.Expr.Grammar
import TrialLoop.Expr.Lexer
import TrialLoop.Expr.Token
import TrialLoop.Function.Argument
import TrialLoop.Function.Basic
import TrialLoop.Function.Geometry
import TrialLoop.Function.Number
import TrialLoop.Interpolation.Reference
import TrialLoop.Loop.Basic
import TrialLoop.Loop.Operation
import TrialLoop.Loop.Start
import TrialLoop.Loop.Step
import TrialLoop.Main
import TrialLoop.Number.Dyadic
import TrialLoop.Number.FloatText
import TrialLoop.Number.Hypotenuse
import TrialLoop.Number.Numeral
import TrialLoop.Number.Shortest
import TrialLoop.Program.Basic
import TrialLoop.Program.File
import TrialLoop.Program.FilePool
import TrialLoop.Program.FileTree
import TrialLoop.Program.Report
import TrialLoop.Program.Trace
import TrialLoop.Proofs.Command.Argument
import TrialLoop.Proofs.Command.Quoted
import TrialLoop.Proofs.Command.QuotedName
import TrialLoop.Proofs.Command.Reread
import TrialLoop.Proofs.Command.RoundTrip
import TrialLoop.Proofs.Command.Words
import TrialLoop.Proofs.Condition.Bareword
import TrialLoop.Proofs.Condition.Equality
import TrialLoop.Proofs.Condition.Meaning
import TrialLoop.Proofs.Condition.Number
import TrialLoop.Proofs.Condition.Pieces
import TrialLoop.Proofs.Condition.Source
import TrialLoop.Proofs.Condition.Tokens
import TrialLoop.Proofs.Condition.Written
import TrialLoop.Proofs.Except
import TrialLoop.Proofs.Experiment.Block
import TrialLoop.Proofs.Experiment.ErrorLines
import TrialLoop.Proofs.Experiment.Parts
import TrialLoop.Proofs.Experiment.RoundTrip
import TrialLoop.Proofs.Expr.Balance
import TrialLoop.Proofs.Expr.Completeness
import TrialLoop.Proofs.Expr.Derivation
import TrialLoop.Proofs.Expr.Height
import TrialLoop.Proofs.Expr.Lexing
import TrialLoop.Proofs.Expr.Soundness
import TrialLoop.Proofs.Interpolation.Consulting
import TrialLoop.Proofs.Interpolation.Escaped
import TrialLoop.Proofs.Interpolation.Inline
import TrialLoop.Proofs.Interpolation.Nesting
import TrialLoop.Proofs.Interpolation.Related
import TrialLoop.Proofs.Interpolation.Segments
import TrialLoop.Proofs.Interpolation.Unguarded
import TrialLoop.Proofs.Loop.Conservation
import TrialLoop.Proofs.Loop.Failure
import TrialLoop.Proofs.Loop.Fairness
import TrialLoop.Proofs.Loop.Frame
import TrialLoop.Proofs.Loop.Reading
import TrialLoop.Proofs.Loop.Request
import TrialLoop.Proofs.Loop.Row
import TrialLoop.Proofs.Loop.Turn
import TrialLoop.Proofs.Number.Digits
import TrialLoop.Proofs.Number.FloatText
import TrialLoop.Proofs.Number.IntText
import TrialLoop.Proofs.Number.Numeral
import TrialLoop.Proofs.Program.Lines
import TrialLoop.Proofs.Random.Permutation
import TrialLoop.Proofs.Script.Dedent
import TrialLoop.Proofs.Script.Entries
import TrialLoop.Proofs.Script.Places
import TrialLoop.Proofs.Sorting.Permutation
import TrialLoop.Proofs.Store.Arena
import TrialLoop.Proofs.Store.Chain
import TrialLoop.Proofs.Store.Scoping
import TrialLoop.Proofs.Table.Cells
import TrialLoop.Proofs.Table.Csv
import TrialLoop.Proofs.Table.Design
import TrialLoop.Proofs.Table.Pipeline
import TrialLoop.Proofs.Table.Rectangular
import TrialLoop.Proofs.Table.Reorder
import TrialLoop.Proofs.Text.Blank
import TrialLoop.Proofs.Text.Lines
import TrialLoop.Proofs.Text.Quoted
import TrialLoop.Proofs.Text.Unescape
import TrialLoop.Random.Shuffle
import TrialLoop.Random.Stream
import TrialLoop.Script.Basic
import TrialLoop.Script.Dedent
import TrialLoop.Script.Directive
import TrialLoop.Sorting.Adaptive
import TrialLoop.Sorting.Insertion
import TrialLoop.Sorting.Short
import TrialLoop.Sorting.Stretch
import TrialLoop.Store.Arena
import TrialLoop.Store.Bindings
import TrialLoop.Store.Event
import TrialLoop.Store.Lookup
import TrialLoop.Store.Workspace
import TrialLoop.Table.Basic
import TrialLoop.Table.Csv
import TrialLoop.Table.Design
import TrialLoop.Table.Reorder
import TrialLoop.Text.Blank
import TrialLoop.Text.Letter
import TrialLoop.Text.Lines
import TrialLoop.Text.Quoted
import TrialLoop.Text.Shown
import TrialLoop.Value.Arith
import TrialLoop.Value.Basic
import TrialLoop.Value.Error
import TrialLoop.Value.Operator
import TrialLoop.Value.Order
import TrialLoop.Proofs.Table.Roll
import TrialLoop.Proofs.Table.Sorted
import TrialLoop.Proofs.Table.UnknownColumn
import TrialLoop.Proofs.Table.RowCells
import TrialLoop.Proofs.Table.RowShuffle
import TrialLoop.Proofs.Table.Weight
import TrialLoop.Proofs.Value.Division
import TrialLoop.Proofs.Number.FloatOrder
import TrialLoop.Proofs.Value.Power
import TrialLoop.Proofs.Number.WordFloat
import TrialLoop.Proofs.Value.MixedOrder
import TrialLoop.Proofs.Function.Extreme
import TrialLoop.Proofs.Number.NumeralFloat
import TrialLoop.Proofs.Value.NumberOrder
import TrialLoop.Proofs.Table.SetCell
import TrialLoop.Proofs.Table.Stack
import TrialLoop.Proofs.Table.Filling
import TrialLoop.Proofs.Value.Length
import TrialLoop.Proofs.Loop.CycleLines
import TrialLoop.Proofs.Script.Locality
import TrialLoop.Proofs.Script.Indentation
import TrialLoop.Proofs.Loop.ColumnName
import TrialLoop.Proofs.Number.ShownText
import TrialLoop.Proofs.Script.VariableName
import TrialLoop.Proofs.Command.Separation
import TrialLoop.Proofs.Condition.Enclosure
import TrialLoop.Proofs.Condition.Malformed
import TrialLoop.Proofs.Number.Grammar
import TrialLoop.Proofs.Value.NumberText
import TrialLoop.Proofs.Table.LineEnding
import TrialLoop.Proofs.Table.Slice
import TrialLoop.Proofs.Function.PointCount
import TrialLoop.Proofs.Function.Scatter
import TrialLoop.Proofs.Interpolation.Literal
import TrialLoop.Proofs.Interpolation.Probe
import TrialLoop.Proofs.Interpolation.Evaluations
import TrialLoop.Proofs.Script.Blocks
import TrialLoop.Proofs.Experiment.Spelling
import TrialLoop.Proofs.Expr.Printing
import TrialLoop.Proofs.Text.Decoding
import TrialLoop.Proofs.Table.RecordLine
import TrialLoop.Proofs.Expr.DepthCounter
import TrialLoop.Proofs.Expr.DepthTracking
import TrialLoop.Proofs.Expr.Siblings
