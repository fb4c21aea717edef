import FlowBubbles.Main
import FlowBubbles.Analysis.Observer
import FlowBubbles.Digraph.Traversal
import FlowBubbles.Proofs.StrongComponents.Components
import FlowBubbles.Proofs.DominatorTree.SuperRoot
import FlowBubbles.Proofs.Dag.Entries
import FlowBubbles.Proofs.Bubble
import FlowBubbles.Proofs.Cycles
import FlowBubbles.Proofs.TopologicalOrder.Moments
import FlowBubbles.Proofs.TopologicalOrder.Depth
import FlowBubbles.Proofs.Dag.Limit
import FlowBubbles.Proofs.Dag.Positions
import FlowBubbles.Proofs.Dag.PassBound
import FlowBubbles.Proofs.Outcome
import FlowBubbles.Proofs.KeyedGraph.History
import FlowBubbles.Proofs.KeyedGraph.Store
import FlowBubbles.Proofs.KeyedGraph.Views
import FlowBubbles.Proofs.CommandLine.Rows
import FlowBubbles.Proofs.Message
import FlowBubbles.Proofs.Checked.Basic
import FlowBubbles.Proofs.Checked.Storage
import FlowBubbles.Proofs.Checked.Search
import FlowBubbles.Proofs.Checked.Components
import FlowBubbles.Proofs.Checked.Order
import FlowBubbles.Proofs.Checked.Reach
import FlowBubbles.Proofs.Checked.Placement
import FlowBubbles.Proofs.Checked.Keyed
import FlowBubbles.Proofs.Checked.Passes
import FlowBubbles.Proofs.Checked.Queries
import FlowBubbles.Proofs.Checked.Rooting
import FlowBubbles.Proofs.Checked.Analysis
import FlowBubbles.Proofs.Shelf
import FlowBubbles.Proofs.Dot.Unambiguous
import FlowBubbles.Proofs.Traversal.Order
import FlowBubbles.Proofs.DominatorTree.Increasing
import FlowBubbles.Proofs.DominatorTree.Consistency
import FlowBubbles.Proofs.DominatorTree.Edges
import FlowBubbles.Proofs.DominatorTree.Meeting
import FlowBubbles.Proofs.StrongComponents.Recursion
import FlowBubbles.Proofs.Checked.Calls
import FlowBubbles.Proofs.Traversal.Preorder
import FlowBubbles.Proofs.Dot.Pairs
import FlowBubbles.Proofs.Dot.Drawn
import FlowBubbles.Proofs.Dag.Drawing
import FlowBubbles.Proofs.DominatorTree.Drawing
import FlowBubbles.Proofs.Text.Words
import FlowBubbles.Proofs.EdgeList.Variants
