import BehaviorScript.CallGraph.Basic
import BehaviorScript.CallGraph.Drawing
import BehaviorScript.Code.Instruction
import BehaviorScript.Code.Operand
import BehaviorScript.Code.Operator
import BehaviorScript.Code.Pointer
import BehaviorScript.Code.Primitive
import BehaviorScript.Code.Record
import BehaviorScript.Code.Variable
import BehaviorScript.CommandLine.Arguments
import BehaviorScript.CommandLine.Run
import BehaviorScript.Corpus.Basic
import BehaviorScript.Corpus.Document
import BehaviorScript.Corpus.FileTree
import BehaviorScript.Corpus.Load
import BehaviorScript.Evidence.Basic
import BehaviorScript.Evidence.Reader
import BehaviorScript.Flow.Explore
import BehaviorScript.Flow.Graph
import BehaviorScript.Json.Basic
import BehaviorScript.Json.Printer
import BehaviorScript.Json.Reader
import BehaviorScript.Json.Schema
import BehaviorScript.Json.Token
import BehaviorScript.Lint.Finding
import BehaviorScript.Lint.Passes
import BehaviorScript.Lint.StackBalance
import BehaviorScript.Lint.VariableUsage
import BehaviorScript.Main
import BehaviorScript.Number.Binary64
import BehaviorScript.Number.Shortest
import BehaviorScript.Output.Json
import BehaviorScript.Output.Sarif
import BehaviorScript.Profile.Basic
import BehaviorScript.Profile.Role
import BehaviorScript.Report.Basic
import BehaviorScript.Script.Basic
import BehaviorScript.Script.IdMap
import BehaviorScript.Script.Scope
import BehaviorScript.Text.Hex
import BehaviorScript.Proofs.Flow.Blocks
import BehaviorScript.Proofs.Flow.Exploration
import BehaviorScript.Proofs.Flow.Reachability
import BehaviorScript.Proofs.Lint.StackBalance
import BehaviorScript.Proofs.Lint.Usage
import BehaviorScript.Proofs.Lint.VariableUsage
import BehaviorScript.Proofs.CallGraph.Callers
import BehaviorScript.Proofs.Corpus.Reports
import BehaviorScript.Proofs.Code.Records
import BehaviorScript.Proofs.Script.Sorting
import BehaviorScript.Proofs.CallGraph.Interning
import BehaviorScript.Proofs.CallGraph.WellFormed
import BehaviorScript.Proofs.Corpus.InputOrder
import BehaviorScript.Proofs.CallGraph.Ids
import BehaviorScript.Proofs.Corpus.Failures
import BehaviorScript.Proofs.Corpus.Conservation
import BehaviorScript.Proofs.Lint.Passes
import BehaviorScript.Proofs.Report.Consistency
import BehaviorScript.Proofs.Corpus.Loading
import BehaviorScript.Proofs.Flow.Loops
import BehaviorScript.Proofs.Lint.StackFindings
import BehaviorScript.Proofs.Lint.Order
import BehaviorScript.Proofs.Lint.LiveCode
import BehaviorScript.Proofs.Text.Unambiguous
import BehaviorScript.Proofs.Lint.StackDepths
import BehaviorScript.Proofs.Flow.Edges
import BehaviorScript.Proofs.Lint.DeadCalls
import BehaviorScript.Proofs.Lint.BranchLogic
import BehaviorScript.Proofs.Code.Operands
import BehaviorScript.Proofs.CallGraph.Drawing
import BehaviorScript.Proofs.Profile.Rules
import BehaviorScript.Proofs.Corpus.Roles
import BehaviorScript.Proofs.Profile.Notes
import BehaviorScript.Proofs.Profile.Degradation
import BehaviorScript.Proofs.Profile.Confidence
import BehaviorScript.Proofs.Corpus.CountedCalls
import BehaviorScript.Proofs.CallGraph.CallSites
import BehaviorScript.Proofs.Corpus.CallSites
import BehaviorScript.Proofs.Corpus.Manifests
import BehaviorScript.Proofs.Json.WholeNumbers
import BehaviorScript.Proofs.Corpus.Strictness
import BehaviorScript.Proofs.Code.Listing
import BehaviorScript.Proofs.Output.Results
import BehaviorScript.Proofs.Flow.Worklist
import BehaviorScript.Proofs.Lint.Traversals
