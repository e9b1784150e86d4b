import Interproc.Alias
import Interproc.CommandLine.Request
import Interproc.CommandLine.Run
import Interproc.CommandLine.Token
import Interproc.Config
import Interproc.Context.Arguments
import Interproc.Context.Basic
import Interproc.Context.CallString
import Interproc.Context.Either
import Interproc.Described
import Interproc.Files.Basic
import Interproc.Files.Tree
import Interproc.Graph
import Interproc.Icfg
import Interproc.Interned
import Interproc.Log
import Interproc.Main
import Interproc.Ordered.Map
import Interproc.Ordered.Set
import Interproc.Partition.Basic
import Interproc.Partition.Forest
import Interproc.Problem
import Interproc.Program.Basic
import Interproc.Program.Builder
import Interproc.Program.Describe
import Interproc.Program.Dot
import Interproc.Program.Flow
import Interproc.Program.Query
import Interproc.Program.Render
import Interproc.Program.Source.Cause
import Interproc.Program.Source.Lexicon
import Interproc.Program.Source.Lift
import Interproc.Program.Source.Statement
import Interproc.Program.Value
import Interproc.Proofs.Context.Nesting
import Interproc.Proofs.Ordered.Comparison
import Interproc.Proofs.Partition.Classes
import Interproc.Proofs.Partition.Forest
import Interproc.Proofs.Partition.Lookup
import Interproc.Proofs.Program.Aliases
import Interproc.Proofs.Program.Bodies
import Interproc.Proofs.Program.Carried
import Interproc.Proofs.Program.Construction
import Interproc.Proofs.Program.Heads
import Interproc.Proofs.Program.Layout
import Interproc.Proofs.Program.Lifted
import Interproc.Proofs.Program.Lines
import Interproc.Proofs.Program.Naming
import Interproc.Proofs.Program.Navigation
import Interproc.Proofs.Program.Printed
import Interproc.Proofs.Program.Renumbered
import Interproc.Proofs.Program.Resolved
import Interproc.Proofs.Program.Rows
import Interproc.Proofs.Program.Sections
import Interproc.Proofs.Program.Spelling
import Interproc.Proofs.Program.Statements
import Interproc.Proofs.Program.Steps
import Interproc.Proofs.Program.Transcript
import Interproc.Proofs.Program.WellFormed
import Interproc.Proofs.Solver.Account
import Interproc.Proofs.Solver.Bound
import Interproc.Proofs.Solver.BoundedContexts
import Interproc.Proofs.Solver.Budget
import Interproc.Proofs.Solver.CallPaths
import Interproc.Proofs.Solver.Course
import Interproc.Proofs.Solver.Credit
import Interproc.Proofs.Solver.Drawn
import Interproc.Proofs.Solver.Exact
import Interproc.Proofs.Solver.Growth
import Interproc.Proofs.Solver.Kinds
import Interproc.Proofs.Solver.Lawful
import Interproc.Proofs.Solver.Listing
import Interproc.Proofs.Solver.Loss
import Interproc.Proofs.Solver.Memory
import Interproc.Proofs.Solver.Mirror
import Interproc.Proofs.Solver.Moment
import Interproc.Proofs.Solver.Move
import Interproc.Proofs.Solver.Orderly
import Interproc.Proofs.Solver.Outline
import Interproc.Proofs.Solver.Pointwise
import Interproc.Proofs.Solver.Provenance
import Interproc.Proofs.Solver.Reach
import Interproc.Proofs.Solver.Recall
import Interproc.Proofs.Solver.Recent
import Interproc.Proofs.Solver.Recompute
import Interproc.Proofs.Solver.Restored
import Interproc.Proofs.Solver.Returns
import Interproc.Proofs.Solver.Review
import Interproc.Proofs.Solver.Run
import Interproc.Proofs.Solver.Selection
import Interproc.Proofs.Solver.Settled
import Interproc.Proofs.Solver.Table
import Interproc.Proofs.Solver.Termination
import Interproc.Proofs.Solver.Walk
import Interproc.Proofs.Taint.Constants
import Interproc.Proofs.Taint.Contexts
import Interproc.Proofs.Taint.Edges
import Interproc.Proofs.Taint.Extension
import Interproc.Proofs.Taint.Flows
import Interproc.Proofs.Taint.Grammar
import Interproc.Proofs.Taint.Leaks
import Interproc.Proofs.Taint.Locality
import Interproc.Proofs.Taint.Monotone
import Interproc.Proofs.Taint.Precision
import Interproc.Proofs.Taint.Sensitive
import Interproc.Proofs.Taint.Termination
import Interproc.Proofs.Taint.ValidPaths
import Interproc.Proofs.Text.Decimal
import Interproc.Proofs.Text.Split
import Interproc.Solver.Comparisons
import Interproc.Solver.Log
import Interproc.Solver.Results
import Interproc.Solver.State
import Interproc.Solver.Step
import Interproc.Taint.Analysis
import Interproc.Taint.Problem
import Interproc.Taint.Registry
import Interproc.Taint.Report
import Interproc.Taint.Specification
import Interproc.Text.Blank
import Interproc.Text.Decimal
import Interproc.Text.Printable
import Interproc.Text.Quoted
import Interproc.Text.Row
import Interproc.Text.Split
