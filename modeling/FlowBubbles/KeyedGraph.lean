import FlowBubbles.Digraph.Adjacency
import FlowBubbles.Key

/-!
# Graphs with keys

In a `KeyedGraph` the labels of the nodes are pairwise different, so that a label names its node.
Nodes are numbered in the order in which their keys first occur. Growing the graph joins a pair of
nodes at most once; only a graph with turned edges has parallel ones.
-/

namespace FlowBubbles

/-- A directed multigraph whose labels are keys. -/
structure KeyedGraph (κ : Type) extends Digraph κ where
  nodup : labels.toList.Nodup

namespace KeyedGraph

variable {κ : Type}

/-- The graph without nodes. -/
def empty : KeyedGraph κ := ⟨Digraph.empty, by simp [Digraph.empty]⟩

instance : Inhabited (KeyedGraph κ) := ⟨empty⟩

/-! ## From nodes to keys -/

/-- The keys in the order of their nodes. -/
def keys (g : KeyedGraph κ) : List κ := g.labels.toList

/-- The key of a node. -/
def key? (g : KeyedGraph κ) (v : Nat) : Option κ := g.label? v

/-- The keys of the listed nodes; what is no node is left out. -/
def keysOf (g : KeyedGraph κ) (vs : List Nat) : List κ := vs.filterMap g.key?

/-- The keys of the ends of an edge between two nodes. -/
def keyPair? (g : KeyedGraph κ) (e : Edge) : Option (κ × κ) := do
  return (← g.key? e.source, ← g.key? e.target)

/-- The keys of the ends of the listed edges; an edge with an end that is no node is left out. -/
def keyPairsOf (g : KeyedGraph κ) (es : List Edge) : List (κ × κ) := es.filterMap g.keyPair?

/-- The keys of the ends of all edges. -/
def edgeKeys (g : KeyedGraph κ) : List (κ × κ) := g.keyPairsOf g.edges.toList

/-! ## Changing the edges -/

/-- The graph with the same nodes and other edges. -/
def withEdges (g : KeyedGraph κ) (edges : Array Edge)
    (h : ∀ e ∈ edges, e.source < g.size ∧ e.target < g.size) : KeyedGraph κ :=
  ⟨g.toDigraph.withEdges edges h, g.nodup⟩

/-- Joins two nodes, and says whether they were not joined before. -/
def join (g : KeyedGraph κ) (e : Edge) (h : e.source < g.size ∧ e.target < g.size) :
    KeyedGraph κ × Bool :=
  if g.hasEdge e.source e.target then (g, false)
  else (⟨g.toDigraph.insertEdge e h, g.nodup⟩, true)

/-! ## From keys to nodes -/

variable [DecidableEq κ]

/-- The node of a key. -/
def node? (g : KeyedGraph κ) (k : κ) : Option Nat := g.labels.findIdx? (· == k)

theorem lt_size_of_node?_eq_some {g : KeyedGraph κ} {k : κ} {v : Nat} (h : g.node? k = some v) :
    v < g.size := by
  rw [node?, Array.findIdx?_eq_some_iff_getElem] at h
  exact h.1

/-- Keys and nodes name each other. -/
theorem node?_eq_some_iff {g : KeyedGraph κ} {k : κ} {v : Nat} :
    g.node? k = some v ↔ g.key? v = some k := by
  rw [node?, Array.findIdx?_eq_some_iff_getElem, key?, Digraph.label?, Array.getElem?_eq_some_iff]
  refine ⟨fun ⟨hv, hk, _⟩ => ⟨hv, by simpa using hk⟩, fun ⟨hv, hk⟩ => ⟨hv, by simpa using hk, ?_⟩⟩
  -- an earlier node has another key
  intro j hj
  have hne := List.pairwise_iff_getElem.1 g.nodup j v (by simp; omega) (by simpa using hv) hj
  simpa [hk] using hne

/-- The result of naming a node of `g`: the graph, which may have grown, and the node. -/
structure Named (g : KeyedGraph κ) where
  graph : KeyedGraph κ
  node : Nat
  node_lt : node < graph.size
  size_le : g.size ≤ graph.size

/-- The node of a key, which is added to the graph if it is not there. -/
def named (g : KeyedGraph κ) (k : κ) : Named g :=
  match h : g.node? k with
  | some v => ⟨g, v, lt_size_of_node?_eq_some h, Nat.le_refl _⟩
  | none =>
    { graph := ⟨g.toDigraph.addNode k, by
        simp only [node?, Array.findIdx?_eq_none_iff, beq_eq_false_iff_ne] at h
        simpa [Digraph.addNode, List.nodup_append] using
          ⟨g.nodup, h⟩⟩
      node := g.size
      node_lt := by simp [Digraph.size, Digraph.addNode]
      size_le := by simp [Digraph.size, Digraph.addNode] }

/-- Adds a node, if its key is new. -/
def addNode (g : KeyedGraph κ) (k : κ) : KeyedGraph κ := (g.named k).graph

/-- Joins the nodes of two keys, which are added if they are new, the source first. Says whether
the nodes were not joined before. -/
def addEdge (g : KeyedGraph κ) (source target : κ) : KeyedGraph κ × Bool :=
  let s := g.named source
  let t := s.graph.named target
  t.graph.join ⟨s.node, t.node⟩ ⟨Nat.lt_of_lt_of_le s.node_lt t.size_le, t.node_lt⟩

/-! ## Graphs from lists -/

/-- Joins the pairs of keys in order. Refuses the first pair with a key that is not in the
graph. -/
def joinAll [KeyText κ] (g : KeyedGraph κ) : List (κ × κ) → Except Error (KeyedGraph κ)
  | [] => .ok g
  | (source, target) :: rest =>
    match hs : g.node? source, ht : g.node? target with
    | some s, some t =>
      (g.join ⟨s, t⟩ ⟨lt_size_of_node?_eq_some hs, lt_size_of_node?_eq_some ht⟩).1.joinAll rest
    | _, _ =>
      .error (.invalidGraph (.foreignEdge (KeyText.quoted source) (KeyText.quoted target)))

/-- The graph of a list of keys and a list of pairs of them. -/
def ofLists [KeyText κ] (keys : List κ) (edges : List (κ × κ)) : Except Error (KeyedGraph κ) :=
  (keys.foldl addNode empty).joinAll edges

end KeyedGraph

end FlowBubbles
