import PuzzleMachine.CompileCache
import PuzzleMachine.Main
import PuzzleMachine.Proofs.Plan
import PuzzleMachine.Proofs.Turn
import PuzzleMachine.Proofs.Scan
import PuzzleMachine.Proofs.Parse
import PuzzleMachine.Proofs.Validation
import PuzzleMachine.Proofs.Resolve
import PuzzleMachine.Proofs.Interpreter
import PuzzleMachine.Proofs.Lockstep
import PuzzleMachine.Proofs.Planned
import PuzzleMachine.Proofs.Coherence
import PuzzleMachine.Proofs.Termination
import PuzzleMachine.Proofs.Ceiling
import PuzzleMachine.Proofs.Exact
import PuzzleMachine.Proofs.Overflow
import PuzzleMachine.Proofs.Grammar
import PuzzleMachine.Proofs.Relocation
import PuzzleMachine.Statement.ParseError
import PuzzleMachine.Statement.Stream
import PuzzleMachine.Proofs.TextReads
import PuzzleMachine.Proofs.Spelling
import PuzzleMachine.Proofs.Printing
import PuzzleMachine.Proofs.Moved
import PuzzleMachine.Proofs.Units
import PuzzleMachine.Proofs.Joining
import PuzzleMachine.Proofs.Appending
import PuzzleMachine.Proofs.Sequence
import PuzzleMachine.Proofs.Cache
import PuzzleMachine.Proofs.Scoring
import PuzzleMachine.Proofs.Located
import PuzzleMachine.Proofs.ErrorPlaces
import PuzzleMachine.Proofs.Marks
import PuzzleMachine.Proofs.Diagnostics
import PuzzleMachine.Proofs.Overrun
import PuzzleMachine.Proofs.Reported
import PuzzleMachine.Proofs.Rendering
import PuzzleMachine.Proofs.JsonText
import PuzzleMachine.Proofs.Codecs
import PuzzleMachine.Proofs.Naming
import PuzzleMachine.Proofs.Widening
import PuzzleMachine.Proofs.Interchange
import PuzzleMachine.Proofs.Leniency
import PuzzleMachine.Proofs.Record
import PuzzleMachine.Proofs.Obtained
import PuzzleMachine.Proofs.LineFaults
import PuzzleMachine.Proofs.LongestMatch
import PuzzleMachine.Proofs.Coverage
import PuzzleMachine.Proofs.Slices
import PuzzleMachine.Proofs.Snippets
import PuzzleMachine.Proofs.Pointing
import PuzzleMachine.Proofs.Carets
import PuzzleMachine.Proofs.Substance
import PuzzleMachine.Proofs.Layout
import PuzzleMachine.Proofs.LabelNames
import PuzzleMachine.Proofs.Redeclared
import PuzzleMachine.Proofs.Unread
import PuzzleMachine.Proofs.Forward
import PuzzleMachine.Proofs.LineIndex
import PuzzleMachine.Proofs.Lowering
import PuzzleMachine.Proofs.Aggregates
import PuzzleMachine.Proofs.Reports
import PuzzleMachine.Proofs.Footprint
import PuzzleMachine.Proofs.LabelOrder
import PuzzleMachine.Proofs.SpanJoin
