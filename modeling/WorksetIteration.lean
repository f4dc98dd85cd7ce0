import WorksetIteration.Number.Exact
import WorksetIteration.Number.Decimal
import WorksetIteration.Text.Shown
import WorksetIteration.Text.Quoted
import WorksetIteration.Text.Json
import WorksetIteration.Text.Form
import WorksetIteration.Text.Json.Form
import WorksetIteration.Value
import WorksetIteration.Record
import WorksetIteration.Key
import WorksetIteration.Error
import WorksetIteration.Key.Extraction
import WorksetIteration.Schedule
import WorksetIteration.Partition
import WorksetIteration.Index
import WorksetIteration.Join.Probe
import WorksetIteration.Join
import WorksetIteration.Aggregate
import WorksetIteration.SolutionSet
import WorksetIteration.SolutionSet.InPlace
import WorksetIteration.Workset
import WorksetIteration.SideInput
import WorksetIteration.Config
import WorksetIteration.Config.Json
import WorksetIteration.Step
import WorksetIteration.Iteration
import WorksetIteration.Iteration.Interruption
import WorksetIteration.Iteration.Commands
import WorksetIteration.Graph.Edges
import WorksetIteration.Graph.Components
import WorksetIteration.Random.Draws
import WorksetIteration.Random.Xoshiro
import WorksetIteration.Graph.OddEven
import WorksetIteration.Proofs.Order.ExactValue
import WorksetIteration.Proofs.Order.Unpacked
import WorksetIteration.Proofs.Order.Word
import WorksetIteration.Proofs.Order.Total
import WorksetIteration.Proofs.Order.BitPattern
import WorksetIteration.Proofs.Order.Laws
import WorksetIteration.Proofs.Order.Mixed
import WorksetIteration.Proofs.Key
import WorksetIteration.Proofs.Arity
import WorksetIteration.Proofs.Index
import WorksetIteration.Proofs.Buckets
import WorksetIteration.Proofs.Partition
import WorksetIteration.Proofs.Chunks
import WorksetIteration.Proofs.SolutionSet
import WorksetIteration.Proofs.History
import WorksetIteration.Proofs.Seeding
import WorksetIteration.Proofs.Join
import WorksetIteration.Proofs.Budget
import WorksetIteration.Proofs.Outcome
import WorksetIteration.Proofs.Prefix
import WorksetIteration.Proofs.Agreement
import WorksetIteration.Proofs.Accounting
import WorksetIteration.Proofs.Reduction
import WorksetIteration.Proofs.Aggregate
import WorksetIteration.Proofs.Summation
import WorksetIteration.Proofs.Grouping
import WorksetIteration.Proofs.Reordering
import WorksetIteration.Proofs.Graph.LabelSpreading
import WorksetIteration.Proofs.Graph.Reachability
import WorksetIteration.Proofs.Graph.Components
import WorksetIteration.Proofs.Graph.PlanIndependence
import WorksetIteration.Proofs.Graph.Convergence
import WorksetIteration.Proofs.Graph.Descent
import WorksetIteration.Proofs.Graph.Fixpoint
import WorksetIteration.Proofs.Interruption
import WorksetIteration.Proofs.Isolation
import WorksetIteration.Proofs.Lifecycle
import WorksetIteration.Proofs.Interleaving
import WorksetIteration.Proofs.Json.Written
import WorksetIteration.Proofs.Json.Form
import WorksetIteration.Proofs.Json.Config
import WorksetIteration.Proofs.Summary
import WorksetIteration.Proofs.Graph.Frontier
import WorksetIteration.Proofs.Graph.Parity
import WorksetIteration.Proofs.Graph.OddEven
import WorksetIteration.Proofs.Seeding
