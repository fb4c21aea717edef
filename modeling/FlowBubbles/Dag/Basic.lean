import FlowBubbles.Digraph.TopologicalOrder
import FlowBubbles.KeyedGraph

/-!
# Acyclic graphs

A `Dag` is a graph with keys together with a topological order of its nodes. It remembers which
edges were turned around to make it acyclic: the edges chosen in each pass, as they ran before, and
the positions among its edges that came about by turning.
-/

namespace FlowBubbles

/-- A graph without cycles of two or more nodes, and how it came about. -/
structure Dag (κ : Type) where
  graph : KeyedGraph κ
  order : List Nat
  order_eq : graph.adjacency.topologicalOrder = some order
  rounds : List (List Edge)
  turnedAt : List Nat

namespace Dag

variable {κ : Type} (d : Dag κ)

/-- The number of passes that turned edges. -/
def passes : Nat := d.rounds.length

/-- The edges that were turned around, as they ran before. -/
def reversed : List Edge := d.rounds.flatten

/-- The position of each node in the order. -/
def ranks : NodeMap Nat := NodeMap.positions d.order 0

/-- The position of a node in the order. -/
def rank? (v : Nat) : Option Nat := if d.graph.hasNode v then some (d.ranks.get v) else none

/-- The keys in topological order. -/
def orderKeys : List κ := d.graph.keysOf d.order

/-- The turned edges as pairs of keys. -/
def reversedKeys : List (κ × κ) := d.graph.keyPairsOf d.reversed

end Dag

end FlowBubbles
