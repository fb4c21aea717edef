import FlowBubbles.Digraph.Basic
import FlowBubbles.NodeMap

/-!
# Adjacency tables

An `Adjacency` lists for every node the nodes after it and the nodes before it. It is what the
searches work on: a graph yields one (`Digraph.adjacency`), and so does a graph with a node put in
front of its entries. The two tables of one `Adjacency` describe the same edges: a pair occurs as
often in the one as in the other.
-/

namespace FlowBubbles

/-- The successors and the predecessors of the nodes of a graph. -/
structure Adjacency where
  size : Nat
  successors : NodeMap (List Nat)
  predecessors : NodeMap (List Nat)
  lt_size : ∀ u v, v ∈ successors.get u → u < size ∧ v < size
  count_eq : ∀ u v, (predecessors.get v).count u = (successors.get u).count v

namespace Adjacency

variable (a : Adjacency)

/-- The nodes that the edges out of `v` lead to. -/
def succ (v : Nat) : List Nat := a.successors.get v

/-- The nodes that the edges into `v` come from. -/
def pred (v : Nat) : List Nat := a.predecessors.get v

/-- The nodes in ascending order. -/
def nodes : List Nat := List.range a.size

/-- The number of edges. -/
def edgeCount : Nat := a.nodes.foldl (fun n v => n + (a.succ v).length) 0

/-- The nodes that no other node precedes. -/
def entries : List Nat := a.nodes.filter fun v => (a.pred v).all (· == v)

/-- The nodes that precede no other node. -/
def exits : List Nat := a.nodes.filter fun v => (a.succ v).all (· == v)

theorem count_pred (u v : Nat) : (a.pred v).count u = (a.succ u).count v := a.count_eq u v

theorem mem_pred_iff {u v : Nat} : u ∈ a.pred v ↔ v ∈ a.succ u := by
  rw [← List.count_pos_iff, ← List.count_pos_iff, a.count_pred]

theorem lt_of_mem_succ {u v : Nat} (h : v ∈ a.succ u) : u < a.size ∧ v < a.size :=
  a.lt_size u v h

/-! ## The tables of a list of edges -/

/-- The rows of a table of edges: under each key, in order, what the edges with that key hold. -/
def rows (key held : Edge → Nat) (edges : List Edge) : NodeMap (List Nat) :=
  edges.foldr (fun e m => m.set (key e) (held e :: m.get (key e))) (.const [])

theorem get_rows (key held : Edge → Nat) (edges : List Edge) (v : Nat) :
    (rows key held edges).get v = (edges.filter (key · == v)).map held := by
  induction edges with
  | nil => simp [rows]
  | cons e rest ih =>
    rw [rows, List.foldr_cons, ← rows, NodeMap.get_set]
    by_cases h : key e = v
    · subst h; simp [ih]
    · simp [ih, h, Ne.symm h]

/-- The number of times that a row holds a value is the number of edges with that key and value. -/
theorem count_map_filter (key held : Edge → Nat) (edges : List Edge) (k x : Nat) :
    ((edges.filter (key · == k)).map held).count x =
      edges.countP fun e => key e == k && held e == x := by
  rw [List.count, List.countP_map, List.countP_filter]
  congr 1
  funext e
  simp [Bool.and_comm]

end Adjacency

variable {κ : Type}

/-- The adjacency tables of a graph. -/
def Digraph.adjacency (g : Digraph κ) : Adjacency where
  size := g.size
  successors := Adjacency.rows Edge.source Edge.target g.edges.toList
  predecessors := Adjacency.rows Edge.target Edge.source g.edges.toList
  lt_size u v h := by
    simp only [Adjacency.get_rows, List.mem_map, List.mem_filter, beq_iff_eq] at h
    obtain ⟨e, ⟨he, rfl⟩, rfl⟩ := h
    exact g.edges_lt e (by simpa using he)
  count_eq u v := by
    simp only [Adjacency.get_rows, Adjacency.count_map_filter]
    congr 1
    funext e
    simp [Bool.and_comm]

namespace Digraph

@[simp] theorem size_adjacency (g : Digraph κ) : g.adjacency.size = g.size := rfl

@[simp] theorem succ_adjacency (g : Digraph κ) (v : Nat) :
    g.adjacency.succ v = g.successors v := Adjacency.get_rows _ _ _ _

@[simp] theorem pred_adjacency (g : Digraph κ) (v : Nat) :
    g.adjacency.pred v = g.predecessors v := Adjacency.get_rows _ _ _ _

end Digraph

end FlowBubbles
