import CodeRisk.Grammar.Rule
import CodeRisk.Grammar.Numbering
import CodeRisk.Grammar.Automaton
import CodeRisk.Grammar.Table
import CodeRisk.Analyzer
import CodeRisk.CommandLine.Arguments
import CodeRisk.CommandLine.Run
import CodeRisk.Json.Parser
import CodeRisk.Proofs.Batch.Schedule
import CodeRisk.Proofs.Complexity.Construct
import CodeRisk.Proofs.Complexity.Method
import CodeRisk.Proofs.Complexity.Unit
import CodeRisk.Proofs.Insertion.Unit
import CodeRisk.Proofs.Java.Conform
import CodeRisk.Proofs.Java.Production
import CodeRisk.Proofs.Java.Reading
import CodeRisk.Proofs.Java.Repair
import CodeRisk.Proofs.Parse
import CodeRisk.Proofs.Java.FirstError
import CodeRisk.Proofs.Lowering.Joined
import CodeRisk.Proofs.Config.Overrides
import CodeRisk.Proofs.Java.Shape
import CodeRisk.Proofs.Lowering.Collected
import CodeRisk.Proofs.Lowering.Faithful
import CodeRisk.Proofs.Lowering.Method
import CodeRisk.Proofs.Business
import CodeRisk.Proofs.Analyzer.Consistent
import CodeRisk.Proofs.Insertion.Outline
import CodeRisk.Proofs.Insertion.Statements
import CodeRisk.Proofs.Exceptions
import CodeRisk.Proofs.Complexity.Mark
import CodeRisk.Proofs.Lowering.Part
import CodeRisk.Proofs.Lowering.Place
import CodeRisk.Proofs.Lowering.Declared
import CodeRisk.Proofs.Lowering.Unit
import CodeRisk.Proofs.Pieces
import CodeRisk.Proofs.Text.ByteOrder
import CodeRisk.Proofs.File.Listing
import CodeRisk.Proofs.File.Discovery
import CodeRisk.Proofs.Likeness
import CodeRisk.Proofs.Lowering.Alike
import CodeRisk.Proofs.Lowering.Roles
import CodeRisk.Proofs.Lowering.AlikeNodes
import CodeRisk.Proofs.Lowering.Comments
import CodeRisk.Proofs.Lowering.CommentedUnit
import CodeRisk.Proofs.Lowering.Nested
import CodeRisk.Proofs.Text.Lines
import CodeRisk.Proofs.Toon.Framing
import CodeRisk.Proofs.Lookup
import CodeRisk.Proofs.Record.Canonical
import CodeRisk.Proofs.Record.Check
import CodeRisk.Proofs.SourceUnit.Canonical
import CodeRisk.Proofs.SourceUnit.RoundTrip
import CodeRisk.Proofs.SourceUnit.Spans
import CodeRisk.Proofs.Batch.Undisturbed
import CodeRisk.Proofs.CommandLine.Run
import CodeRisk.Proofs.Metadata.Timestamp
import CodeRisk.Proofs.Toon.Determined
import CodeRisk.Proofs.Complexity.Chain
import CodeRisk.Proofs.Lowering.Height
import CodeRisk.Proofs.Nesting
import CodeRisk.Proofs.Analyzer.Session
import CodeRisk.Proofs.Complexity.Size
import CodeRisk.Proofs.Complexity.Moves
import CodeRisk.Proofs.Complexity.Checked
import CodeRisk.Proofs.Complexity.Enclosed
import CodeRisk.Proofs.Business.Rules
import CodeRisk.Proofs.Business.Merge
import CodeRisk.Proofs.Dependency.Platform
import CodeRisk.Proofs.Risk.Thresholds
import CodeRisk.Proofs.Batch.Failures
import CodeRisk.Proofs.File.Reach
import CodeRisk.Proofs.Batch.Expanded
import CodeRisk.Proofs.Regrouping
import CodeRisk.Proofs.Lowering.Cases
import CodeRisk.Proofs.Lowering.Unfolded
import CodeRisk.Proofs.Lowering.ExceptionTypes
