import FlowBubbles.Dag.Basic
import FlowBubbles.DominatorTree.Basic

/-!
# Bubbles

A bubble starts at a node where edges merge and ends at the last of the nodes that its start
immediately dominates.
-/

namespace FlowBubbles

/-- A merge node and the last node that it immediately dominates. -/
structure Bubble where
  start : Nat
  stop : Nat
deriving DecidableEq, Repr

namespace Bubble

/-- The listed node of the greatest rank, the last one if several have it. -/
def latest (rank : Nat → Nat) (nodes : List Nat) : Option Nat :=
  nodes.foldl (fun best v =>
    match best with
    | none => some v
    | some b => if rank b ≤ rank v then some v else some b) none

/-- The ends of a bubble as an edge. -/
def edge (b : Bubble) : Edge := ⟨b.start, b.stop⟩

end Bubble

namespace Dag

variable {κ : Type} (d : Dag κ)

/-- The bubbles of a tree over the graph, by the rank of their starts. Parallel edges and loops
count as edges that merge. -/
def bubbles (t : DominatorTree) : List Bubble :=
  let a := d.graph.adjacency
  let rank := d.ranks
  (t.nodes.filter fun v => 1 < (a.pred v).length).filterMap fun start =>
    (Bubble.latest rank.get (t.children start)).map (⟨start, ·⟩)

/-- The bubbles of a tree that may come from elsewhere, if its nodes are nodes of the graph. -/
def bubbles? (t : DominatorTree) : Option (List Bubble) :=
  if t.nodes.all d.graph.hasNode then some (d.bubbles t) else none

end Dag

end FlowBubbles
