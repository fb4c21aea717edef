import FlowBubbles.Digraph.Adjacency
import FlowBubbles.Iteration

/-!
# Visiting what a node reaches

`Adjacency.visit` lists the nodes that a start node reaches. The search keeps a stack of nodes to
visit. A node is marked when it is put on the stack, so it is put there once, and a run takes as
many steps as there are nodes to visit.
-/

namespace FlowBubbles

/-- The state of a visit: the marked nodes, the marked nodes still to visit with the next one
first, and the visited nodes in order. -/
structure Visit where
  marked : NodeMap Bool
  pending : List Nat
  visited : Array Nat

/-- Puts a node on the stack unless it is marked. -/
def Visit.push (s : Visit) (v : Nat) : Visit :=
  if s.marked.get v then s
  else { s with marked := s.marked.set v true, pending := v :: s.pending }

namespace Adjacency

variable (a : Adjacency)

/-- Visits the next node and puts its successors on the stack, the last one first, so that the
first one is on top. -/
def visitNext (s : Visit) : Visit :=
  match s.pending with
  | [] => s
  | v :: rest =>
    (a.succ v).reverse.foldl Visit.push { s with pending := rest, visited := s.visited.push v }

/-- The state before the first node is visited. A start outside the graph is not put on the
stack. -/
def visitStart (start : Nat) : Visit :=
  if start < a.size then ⟨(NodeMap.const false).set start true, [start], #[]⟩
  else ⟨.const false, [], #[]⟩

/-- The state when no node is left to visit. -/
def visitEnd (start : Nat) : Visit :=
  iterate (·.pending.isEmpty) a.visitNext a.size (a.visitStart start)

/-- The nodes that `start` reaches, in the order of the visit. -/
def visit (start : Nat) : List Nat := (a.visitEnd start).visited.toList

/-- For each node, whether `start` reaches it. -/
def reached (start : Nat) : NodeMap Bool := (a.visitEnd start).marked

end Adjacency

end FlowBubbles
