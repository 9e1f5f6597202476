import Retarget.Analysis.Footprint
import Retarget.Analysis.Report
import Retarget.Analysis.Result
import Retarget.Analysis.Run
import Retarget.Analysis.Trace
import Retarget.Architecture
import Retarget.Archive
import Retarget.CommandLine.Columns
import Retarget.CommandLine.Command
import Retarget.CommandLine.Effect
import Retarget.CommandLine.Flag
import Retarget.CommandLine.Help
import Retarget.CommandLine.Run
import Retarget.CommandLine.SettingsFlags
import Retarget.Dot
import Retarget.Emission.Generate
import Retarget.Emission.Line
import Retarget.Flow.Build
import Retarget.Flow.Dataflow
import Retarget.Flow.Dependence
import Retarget.Flow.Graph
import Retarget.Flow.PostDominance
import Retarget.Inline.Calls
import Retarget.Inline.Candidate
import Retarget.Inline.Plan
import Retarget.Kernel.CText
import Retarget.Kernel.CType
import Retarget.Kernel.Scope
import Retarget.Kernel.Unit
import Retarget.Log
import Retarget.Loop.Pattern
import Retarget.Loop.Profile
import Retarget.Loop.Vector
import Retarget.Main
import Retarget.Operation.Basic
import Retarget.Operation.Dot
import Retarget.Operation.Graph
import Retarget.Operation.Lowering
import Retarget.Operation.Order
import Retarget.Proofs.Arena
import Retarget.Proofs.BlockSet
import Retarget.Proofs.DataDependence
import Retarget.Proofs.Dataflow
import Retarget.Proofs.DefUse
import Retarget.Proofs.FlowPath
import Retarget.Proofs.Grouping
import Retarget.Proofs.PostDominance
import Retarget.Proofs.ReachingDefinitions
import Retarget.Proofs.Sweep
import Retarget.PropertyGraph.Basic
import Retarget.PropertyGraph.Build
import Retarget.PropertyGraph.Dot
import Retarget.PropertyGraph.Metrics
import Retarget.PropertyGraph.Query
import Retarget.PropertyGraph.Trace
import Retarget.Reach
import Retarget.Rule.Basic
import Retarget.Rule.Builtin
import Retarget.Rule.Catalog
import Retarget.Rule.Database
import Retarget.Rule.Template
import Retarget.Samples
import Retarget.Settings
import Retarget.Source.Lexer
import Retarget.Source.Line
import Retarget.Source.Node
import Retarget.Source.Operator
import Retarget.Source.Parser
import Retarget.Source.Parser.Basic
import Retarget.Source.Parser.Expr
import Retarget.Source.Parser.Stmt
import Retarget.Source.Parser.Type
import Retarget.Source.PlainText
import Retarget.Source.Rename
import Retarget.Source.Token
import Retarget.Tally
import Retarget.Text.Basic
import Retarget.Text.Bytes
import Retarget.Text.Decimal
import Retarget.Text.Fold
import Retarget.Text.Integer
import Retarget.Text.Letter
import Retarget.Text.Quoted
import Retarget.Text.Record
import Retarget.Text.Visible
import Retarget.Workspace
import Retarget.Yaml.Basic
import Retarget.Yaml.Cursor
import Retarget.Yaml.Document
import Retarget.Yaml.Scalar
import Retarget.Yaml.ScalarText
import Retarget.Yaml.Token
import Retarget.Yaml.Value
import Retarget.Yaml.Writer
import Retarget.Proofs.CallWiring
import Retarget.Proofs.Forgetting
import Retarget.Proofs.KernelWiring
import Retarget.Proofs.GraphHistory
import Retarget.Proofs.ControlDependence
import Retarget.Proofs.FlowStop
import Retarget.Proofs.Ledger
import Retarget.Proofs.StopWiring
import Retarget.Proofs.CallShape
import Retarget.Proofs.Layout
import Retarget.Proofs.LayoutHistory
import Retarget.Proofs.KernelFlow
import Retarget.Proofs.ReturnEdges
import Retarget.Proofs.CallPlan
import Retarget.Proofs.Blueprint
import Retarget.Proofs.BuildOrder
import Retarget.Proofs.LoweredGraph
import Retarget.Proofs.OperandEdges
import Retarget.Proofs.StatementShape
import Retarget.Proofs.Bracketing
import Retarget.Proofs.LoopHeader
import Retarget.Proofs.VectorLanes
import Retarget.Proofs.VectorBody
import Retarget.Proofs.VectorCount
import Retarget.Proofs.VectorElements
import Retarget.Proofs.CToken
import Retarget.Proofs.CExpression
import Retarget.Proofs.PrintedExpression
import Retarget.Proofs.CStatement
import Retarget.Proofs.ControlTransfer
import Retarget.Proofs.PrintedStatement
import Retarget.Proofs.PrintedControl
import Retarget.Proofs.SyntaxNumbers
import Retarget.Proofs.ExpressionShape
import Retarget.Proofs.LoweredNames
import Retarget.Proofs.FlowNodes
import Retarget.Proofs.AliasOrigin
import Retarget.Proofs.FlowEdges
import Retarget.Proofs.EmittedLine
import Retarget.Proofs.StoringText
import Retarget.Proofs.StatementNode
import Retarget.Proofs.StoredValue
import Retarget.Proofs.Reprint
import Retarget.Proofs.Convergence
import Retarget.Proofs.Rounds
import Retarget.Proofs.StatementIndex
import Retarget.Proofs.StatementTally
import Retarget.Proofs.CappedDefinitions
import Retarget.Proofs.Conversion
import Retarget.Proofs.FlowDraft
import Retarget.Proofs.FlowShape
import Retarget.Proofs.TraceGround
import Retarget.Proofs.BackwardTrace
import Retarget.Proofs.ForwardTrace
import Retarget.Proofs.ValueNode
import Retarget.Proofs.DeclaredType
import Retarget.Proofs.RuleVerdict
import Retarget.Proofs.StatementVerdict
import Retarget.Proofs.LoopBody
import Retarget.Proofs.OperationHistory
import Retarget.Proofs.RuleQueries
import Retarget.Proofs.TemplateText
import Retarget.Proofs.WordList
import Retarget.Proofs.CatalogFields
import Retarget.Proofs.CatalogReload
import Retarget.Proofs.FieldReading
import Retarget.Proofs.Numeral
import Retarget.Proofs.InlinedCall
import Retarget.Proofs.ArgumentCalls
import Retarget.Proofs.ExpansionFrame
import Retarget.Proofs.NodePaths
import Retarget.Proofs.TraceOrigins
import Retarget.Proofs.DataFlowPath
import Retarget.Proofs.AnalysisRun
import Retarget.Proofs.ArchiveRows
import Retarget.Proofs.NodeLookup
import Retarget.Proofs.OperandNesting
import Retarget.Proofs.PrintedAssignment
import Retarget.Proofs.TupleAssignment
import Retarget.Proofs.SideEffects
import Retarget.Proofs.Purity
import Retarget.Proofs.BackEdges
import Retarget.Proofs.DigraphOrder
import Retarget.Proofs.LongestChain
import Retarget.Proofs.Dominance
import Retarget.Proofs.DominatorTree
import Retarget.Proofs.QuotedLabel
import Retarget.Proofs.ListedCalls
import Retarget.Proofs.Parentheses
import Retarget.Proofs.FlowRenaming
import Retarget.Proofs.BareFlow
import Retarget.Proofs.ParenthesesAside
import Retarget.Proofs.LiteralToken
import Retarget.Proofs.TermForm
import Retarget.Proofs.TermText
import Retarget.Proofs.LaneValue
