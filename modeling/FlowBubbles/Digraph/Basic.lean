import FlowBubbles.Error

/-!
# Directed multigraphs

A `Digraph` is an array of node labels and an array of edges whose ends are nodes of it. Loops and
parallel edges are allowed. Edges keep the order in which they were added; the neighbours of a node
are read off that order.
-/

namespace FlowBubbles

/-- A directed multigraph with labelled nodes. -/
structure Digraph (κ : Type) where
  labels : Array κ
  edges : Array Edge
  edges_lt : ∀ e ∈ edges, e.source < labels.size ∧ e.target < labels.size

namespace Digraph

variable {κ : Type}

/-- The graph without nodes. -/
def empty : Digraph κ := ⟨#[], #[], by simp⟩

instance : Inhabited (Digraph κ) := ⟨empty⟩

/-! ## Reading a graph -/

/-- The number of nodes. -/
def size (g : Digraph κ) : Nat := g.labels.size

/-- The number of edges. -/
def edgeCount (g : Digraph κ) : Nat := g.edges.size

/-- Whether the graph has no nodes. -/
def isEmpty (g : Digraph κ) : Bool := g.size == 0

/-- The nodes in ascending order. -/
def nodes (g : Digraph κ) : List Nat := List.range g.size

/-- The label of a node. -/
def label? (g : Digraph κ) (v : Nat) : Option κ := g.labels[v]?

/-- Whether `v` is a node of the graph. -/
def hasNode (g : Digraph κ) (v : Nat) : Bool := v < g.size

/-- Whether some edge runs from `u` to `v`. -/
def hasEdge (g : Digraph κ) (u v : Nat) : Bool := g.edges.contains ⟨u, v⟩

/-- The targets of the edges that leave `v`, in order of insertion. -/
def successors (g : Digraph κ) (v : Nat) : List Nat :=
  (g.edges.toList.filter (·.source == v)).map Edge.target

/-- The sources of the edges that enter `v`, in order of insertion. -/
def predecessors (g : Digraph κ) (v : Nat) : List Nat :=
  (g.edges.toList.filter (·.target == v)).map Edge.source

/-- The successors of a node of the graph; no other index has any. -/
def successors? (g : Digraph κ) (v : Nat) : Option (List Nat) :=
  if g.hasNode v then some (g.successors v) else none

/-- The predecessors of a node of the graph; no other index has any. -/
def predecessors? (g : Digraph κ) (v : Nat) : Option (List Nat) :=
  if g.hasNode v then some (g.predecessors v) else none

/-- The number of edges that leave a node. -/
def outDegree? (g : Digraph κ) (v : Nat) : Option Nat := (g.successors? v).map List.length

/-- The number of edges that enter a node. -/
def inDegree? (g : Digraph κ) (v : Nat) : Option Nat := (g.predecessors? v).map List.length

/-! ## Growing a graph -/

/-- Adds a node, whose index is the old number of nodes. -/
def addNode (g : Digraph κ) (label : κ) : Digraph κ where
  labels := g.labels.push label
  edges := g.edges
  edges_lt e he := by
    have := g.edges_lt e he
    simp only [Array.size_push]
    omega

/-- Adds an edge between two nodes of the graph. -/
def insertEdge (g : Digraph κ) (e : Edge) (h : e.source < g.size ∧ e.target < g.size) :
    Digraph κ where
  labels := g.labels
  edges := g.edges.push e
  edges_lt e' he' := by
    rcases Array.mem_push.1 he' with he' | rfl
    · exact g.edges_lt e' he'
    · exact h

/-- Adds an edge, or says which end is missing. The source is looked at first. -/
def addEdge (g : Digraph κ) (e : Edge) : Except Error (Digraph κ) :=
  if hs : e.source < g.size then
    if ht : e.target < g.size then
      .ok (g.insertEdge e ⟨hs, ht⟩)
    else
      .error (.invalidGraph (.missingTarget e.target g.size))
  else
    .error (.invalidGraph (.missingSource e.source g.size))

/-- The graph with the same nodes and other edges. -/
def withEdges (g : Digraph κ) (edges : Array Edge)
    (h : ∀ e ∈ edges, e.source < g.size ∧ e.target < g.size) : Digraph κ :=
  ⟨g.labels, edges, h⟩

end Digraph

end FlowBubbles
