import LiveForm.Abort
import LiveForm.Aggregate
import LiveForm.Builtin
import LiveForm.Cache
import LiveForm.Cases
import LiveForm.Coercion
import LiveForm.CommandLine
import LiveForm.CommandLine.Arguments
import LiveForm.Definition
import LiveForm.Document
import LiveForm.Document.Cursor
import LiveForm.Document.Node
import LiveForm.Document.Scalar
import LiveForm.Document.Text
import LiveForm.Document.Token
import LiveForm.Engine
import LiveForm.Expr
import LiveForm.Expr.Evaluation
import LiveForm.Expr.Lexer
import LiveForm.Expr.Parser
import LiveForm.Expr.References
import LiveForm.Expr.SyntaxError
import LiveForm.Expr.Token
import LiveForm.Fault
import LiveForm.Graph
import LiveForm.Json.Order
import LiveForm.Json.Reader
import LiveForm.Json.Writer
import LiveForm.Layers
import LiveForm.Limits
import LiveForm.Number.Arithmetic
import LiveForm.Number.Binary
import LiveForm.Number.Numeral
import LiveForm.Number.Shortest
import LiveForm.Number.Text
import LiveForm.ReadFault
import LiveForm.Row
import LiveForm.Schema
import LiveForm.Session
import LiveForm.Settings
import LiveForm.Snapshot
import LiveForm.Table
import LiveForm.Template
import LiveForm.Template.Format
import LiveForm.Template.Path
import LiveForm.Text.CaseRanges
import LiveForm.Text.Class
import LiveForm.Text.Lowercase
import LiveForm.Text.Quoted
import LiveForm.Text.Ranges
import LiveForm.Value
import LiveForm.Value.Text
import LiveForm.Main
import LiveForm.Proofs.Table
import LiveForm.Proofs.Graph.Edges
import LiveForm.Proofs.Graph.Schedule
import LiveForm.Proofs.Graph.Cycles
import LiveForm.Proofs.Action
import LiveForm.Proofs.Engine
import LiveForm.Proofs.Json.Delimited
import LiveForm.Proofs.Except
import LiveForm.Proofs.Json.Rendering
import LiveForm.Proofs.Snapshot
import LiveForm.Proofs.Cache
import LiveForm.Proofs.Session.Answer
import LiveForm.Proofs.Session.History
import LiveForm.Proofs.Session.Lockstep
import LiveForm.Proofs.Session.Transparency
import LiveForm.Proofs.Expr.Grammar
import LiveForm.Proofs.Expr.Quoting
import LiveForm.Proofs.Expr.Parser.Bounds
import LiveForm.Proofs.Expr.Plain
import LiveForm.Proofs.Row
import LiveForm.Proofs.Session.Registration
import LiveForm.Proofs.Session.Pass
import LiveForm.Proofs.Session.Consistency
import LiveForm.Proofs.Expr.Parser.Operands
import LiveForm.Proofs.Expr.Parser.Levels
import LiveForm.Proofs.Expr.Lexemes
import LiveForm.Proofs.Expr.Parser.Whole
import LiveForm.Proofs.Expr.Coverage
import LiveForm.Proofs.Session.Fields
import LiveForm.Proofs.Session.Solution
import LiveForm.Proofs.Session.Agreement
import LiveForm.Proofs.Session.Seed
import LiveForm.Proofs.Session.Locality
import LiveForm.Proofs.Session.Upkeep
import LiveForm.Proofs.Session.Wiring
import LiveForm.Proofs.Session.Removal
import LiveForm.Proofs.Session.RowLinks
import LiveForm.Proofs.Session.WriteBack
import LiveForm.Proofs.Session.Siblings
import LiveForm.Proofs.Expr.Breakdown
import LiveForm.Proofs.Engine.Escape
import LiveForm.Proofs.Session.Steps
import LiveForm.Proofs.Session.OneValue
import LiveForm.Proofs.Session.Inputs
import LiveForm.Proofs.Template
import LiveForm.Proofs.Session.Reseed
import LiveForm.Proofs.Session.Rendering
import LiveForm.Proofs.Number.Parts
import LiveForm.Proofs.Number.Exact
import LiveForm.Proofs.Cache.Calls
import LiveForm.Proofs.Number.Text
import LiveForm.Proofs.Json.Order
import LiveForm.Proofs.Json.Leaves
import LiveForm.Proofs.Json.Trees
import LiveForm.Proofs.Snapshot.Trees
import LiveForm.Proofs.Session.Coherence
import LiveForm.Proofs.Session.Failure
import LiveForm.Proofs.Engine.Reads
import LiveForm.Proofs.Engine.ValueAccess
import LiveForm.Proofs.Graph.Layers
import LiveForm.Proofs.Graph.Draining
import LiveForm.Proofs.Session.Memory
import LiveForm.Proofs.Session.Accounting
import LiveForm.Proofs.Store
import LiveForm.Proofs.Row.Update
import LiveForm.Proofs.Row.Shared
import LiveForm.Proofs.Row.Ids
import LiveForm.Proofs.Row.Isolation
import LiveForm.Proofs.Session.Precedence
import LiveForm.Proofs.Row.Canonical
import LiveForm.Proofs.Graph.Values
import LiveForm.Proofs.Session.LeafNames
import LiveForm.Proofs.Session.LastValue
import LiveForm.Proofs.Number.Packing
import LiveForm.Proofs.Number.Nearest
import LiveForm.Proofs.Number.Whole
import LiveForm.Proofs.Number.Half
import LiveForm.Proofs.Number.Rounding
import LiveForm.Proofs.Engine.WholeNumbers
import LiveForm.Proofs.Engine.Shared
import LiveForm.Proofs.Template.Spelling
import LiveForm.Proofs.Template.Address
import LiveForm.Proofs.Template.Pieces
import LiveForm.Proofs.Template.Matching
import LiveForm.Proofs.Number.Reading
import LiveForm.Proofs.Engine.Acceptance
import LiveForm.Proofs.Definition
import LiveForm.Proofs.Aggregate
import LiveForm.Proofs.Template.Walking
import LiveForm.Proofs.Template.Answers
import LiveForm.Proofs.Template.Arguments
