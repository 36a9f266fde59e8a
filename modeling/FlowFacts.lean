import FlowFacts.Dataflow.Samples
import FlowFacts.Execution.Stream
import FlowFacts.Graph.Journal
import FlowFacts.Path
import FlowFacts.Proofs.Attempts
import FlowFacts.Proofs.Block.Shape
import FlowFacts.Proofs.Chain.Exact
import FlowFacts.Proofs.Chain.Search
import FlowFacts.Proofs.Dataflow.Solution
import FlowFacts.Proofs.Execution.Simulation
import FlowFacts.Proofs.Graph.Execution
import FlowFacts.Proofs.Graph.History
import FlowFacts.Proofs.Graph.Temps
import FlowFacts.Proofs.Liveness.Exact
import FlowFacts.Proofs.Liveness.Fresh
import FlowFacts.Proofs.Liveness.Noninterference
import FlowFacts.Proofs.Liveness.Summary
import FlowFacts.Proofs.Path
import FlowFacts.Proofs.Pruning.Execution
import FlowFacts.Proofs.Pruning.Threading
import FlowFacts.Proofs.Segment.Execution
import FlowFacts.Proofs.Withdrawal
import FlowFacts.Report.Dot
import FlowFacts.Report.Listing
import FlowFacts.Routine.Draft
import FlowFacts.Proofs.Chain.Liveness
import FlowFacts.Proofs.Pruning.Redirects
import FlowFacts.Proofs.Pruning.Outcome
import FlowFacts.Proofs.Block.Structure
import FlowFacts.Proofs.Pruning.Structure
import FlowFacts.Proofs.Segment.Targets
import FlowFacts.Proofs.Graph.Structure
import FlowFacts.Proofs.Graph.Outcome
import FlowFacts.Proofs.Dataflow.Related
import FlowFacts.Proofs.Liveness.Equations
import FlowFacts.Proofs.Dataflow.Least
import FlowFacts.Proofs.Liveness.Least
import FlowFacts.Proofs.Chain.Depth
import FlowFacts.Proofs.Liveness.Shape
import FlowFacts.Proofs.Graph.Recompute
import FlowFacts.Proofs.Dataflow.Visits
import FlowFacts.Proofs.Segment.Tail
import FlowFacts.Proofs.Pruning.Padding
import FlowFacts.Proofs.Liveness.Limit
import FlowFacts.Proofs.Graph.DeadTail
import FlowFacts.Proofs.Chain.Preorder
import FlowFacts.Graph.InPlace
import FlowFacts.Proofs.Graph.InPlace
import FlowFacts.Proofs.Withdrawal.Course
import FlowFacts.Proofs.Pruning.Survivors
import FlowFacts.Proofs.Segment.Numbering
import FlowFacts.Proofs.Graph.Labels
import FlowFacts.Proofs.Dataflow.Cutoff
import FlowFacts.Proofs.Dataflow.Forward
import FlowFacts.Proofs.Liveness.Walk
import FlowFacts.Proofs.BitSet.Refinement
import FlowFacts.Proofs.BitSet.Iteration
import FlowFacts.Proofs.Liveness.Laws
import FlowFacts.Proofs.Report.Drawing
