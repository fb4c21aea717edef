import FlowBubbles.Digraph.Adjacency
import FlowBubbles.Iteration

/-!
# Topological orders

The nodes are put into a line. A node joins the line when it waits for no other node any more:
first, in ascending order, the nodes that no other node precedes, then, as the nodes of the line
are dealt with one after the other, each node whose last predecessor is dealt with. Loops do not
count. If all nodes join, the line is the order; a cycle of two or more nodes keeps its nodes out.
-/

namespace FlowBubbles

/-- The line of nodes, how many of them are dealt with, and for each node outside the line how many
edges from other nodes it waits for. -/
structure Line where
  order : Array Nat
  dealt : Nat
  waiting : NodeMap Nat

namespace Line

/-- Deals with an edge from `v`: its target waits for one edge less and joins the line if that was
the last one. -/
def release (v : Nat) (s : Line) (w : Nat) : Line :=
  if w = v then s
  else
    let left := s.waiting.get w - 1
    { s with
      order := if left = 0 then s.order.push w else s.order
      waiting := s.waiting.set w left }

/-- Whether all nodes of the line are dealt with. -/
def halted (s : Line) : Bool := s.order.size ≤ s.dealt

/-- Deals with the next node of the line. -/
def advance (a : Adjacency) (s : Line) : Line :=
  match s.order[s.dealt]? with
  | none => s
  | some v => (a.succ v).foldl (release v) { s with dealt := s.dealt + 1 }

/-- For each node, the number of edges from other nodes into it. -/
def waitingAtStart (a : Adjacency) : NodeMap Nat :=
  a.nodes.foldl (fun m v => m.set v ((a.pred v).countP (· != v))) (.const 0)

/-- The line before any node is dealt with. -/
def start (a : Adjacency) : Line :=
  let waiting := waitingAtStart a
  ⟨(a.nodes.filter (waiting.get · == 0)).toArray, 0, waiting⟩

end Line

/-- The topological order of the nodes, if no cycle passes through two or more of them. -/
def Adjacency.topologicalOrder (a : Adjacency) : Option (List Nat) :=
  let line := iterate Line.halted (Line.advance a) a.size (Line.start a)
  if line.order.size = a.size then some line.order.toList else none

end FlowBubbles
