import FlowBubbles.Digraph.Adjacency
import FlowBubbles.DominatorTree.Basic
import FlowBubbles.Iteration

/-!
# Building a dominator tree

The nodes are placed one after the other in a given order. A node goes below the nearest common
ancestor of its predecessors that are placed already. Two nodes are walked up to their nearest
common ancestor by always moving the one that stands later in the order. If the order is
topological, one round places every node exactly.
-/

namespace FlowBubbles

/-- The tree built so far: the parents, and the nodes in the order of their placement. -/
structure Placement where
  parent : NodeMap (Option Nat)
  order : Array Nat

namespace Placement

/-- Moves the later one of two nodes up to its parent. -/
def walk (rank : NodeMap Nat) (root : Nat) (parent : NodeMap (Option Nat)) :
    Nat × Nat → Nat × Nat
  | (u, v) =>
    if rank.get v < rank.get u then ((parent.get u).getD root, v)
    else (u, (parent.get v).getD root)

/-- The nearest common ancestor of two placed nodes of a graph of `size` nodes: the two are walked
up until they are equal. A walk that ends visits no pair of nodes twice, so there is fuel for every
pair. -/
def meet (size : Nat) (rank : NodeMap Nat) (root : Nat) (parent : NodeMap (Option Nat))
    (u v : Nat) : Nat :=
  (iterate (fun p => p.1 == p.2) (walk rank root parent) ((size + 1) * (size + 1)) (u, v)).1

/-- The nearest common ancestor of the placed predecessors of a node, loops left out. -/
def meetOfPred (a : Adjacency) (rank : NodeMap Nat) (root : Nat) (parent : NodeMap (Option Nat))
    (v : Nat) : Option Nat :=
  (a.pred v).foldl (fun found u =>
    if u = v || (parent.get u).isNone then found
    else match found with
      | none => some u
      | some w => some (meet a.size rank root parent u w)) none

/-- Places a node, unless it is the root or has no placed predecessor. -/
def place (a : Adjacency) (rank : NodeMap Nat) (root : Nat) (p : Placement) (v : Nat) :
    Placement :=
  if v = root then p
  else match meetOfPred a rank root p.parent v with
    | none => p
    | some u => ⟨p.parent.set v (some u), p.order.push v⟩

/-- The tree of the root alone; a root outside the graph gives the empty tree. -/
def start (a : Adjacency) (root : Nat) : Placement :=
  if root < a.size then ⟨(NodeMap.const none).set root (some root), #[root]⟩
  else ⟨.const none, #[]⟩

end Placement

namespace Adjacency

variable (a : Adjacency)

/-- The dominator tree for a root, built along an order of nodes. A node's rank is its position in
the order; a node outside the order comes after all others. -/
def dominatorTree (root : Nat) (order : List Nat) : DominatorTree :=
  let rank := NodeMap.positions order order.length
  let placed := order.foldl (Placement.place a rank root) (Placement.start a root)
  { root := root
    superRoot := none
    joined := []
    parent := placed.parent
    order := placed.order.toList
    unreachable := a.nodes.filter fun v => (placed.parent.get v).isNone }

/-- The dominator tree along an order that is given from outside, if it holds nodes of the graph
only. -/
def dominatorTree? (root : Nat) (order : List Nat) : Option DominatorTree :=
  if order.all (· < a.size) then some (a.dominatorTree root order) else none

end Adjacency

end FlowBubbles
