import FlowBubbles.Proofs.Dag.Turned
import FlowBubbles.Proofs.DominatorTree.Rooting

/-!
# Reachability in the acyclic graph

The source of a flipped back edge reached its target all along, so a node of the result reaches
nothing new. In general nodes reach less than before: what led through a back edge may be lost. Not
so for the first node, which reaches all it reaches along edges that advance
(`DepthFirst.advances_of_reaches`), and those edges stay as they are.
-/

namespace FlowBubbles

open DepthFirst

namespace KeyedGraph

variable {κ : Type} {g : KeyedGraph κ} {limit : Option Nat} {d : Dag κ} {x y : Nat}

/-- The result has an edge if the given graph has it and it is no back edge, or if it is a flipped
back edge. -/
theorem mem_succ_iff_of_breakCycles (h : g.breakCycles limit = .ok d) :
    y ∈ d.graph.adjacency.succ x ↔
      y ∈ g.adjacency.succ x ∧ ⟨x, y⟩ ∉ g.adjacency.strongComponents.backEdges ∨
        ⟨y, x⟩ ∈ g.adjacency.strongComponents.backEdges := by
  rw [Digraph.mem_succ_adjacency, Digraph.mem_succ_adjacency]
  exact mem_edges_iff_of_breakCycles h

theorem size_of_breakCycles (h : g.breakCycles limit = .ok d) : d.graph.size = g.size := by
  rw [Digraph.size, Digraph.size, labels_of_breakCycles h]

/-- What a node reaches in the result it reaches in the given graph. -/
theorem reaches_of_breakCycles (h : g.breakCycles limit = .ok d)
    (hxy : d.graph.adjacency.Reaches x y) : g.adjacency.Reaches x y := by
  induction hxy with
  | refl => exact .refl x
  | tail _ hedge ih =>
    rcases (mem_succ_iff_of_breakCycles h).1 hedge with ⟨hedge, -⟩ | hback
    · exact ih.tail hedge
    · exact ih.trans (reaches_of_mem_backEdges_depthFirst hback)

/-- An edge that advances is no back edge, and so it is left as it is. -/
theorem mem_succ_of_advances (h : g.breakCycles limit = .ok d) (hadv : g.adjacency.Advances x y) :
    y ∈ d.graph.adjacency.succ x :=
  (mem_succ_iff_of_breakCycles h).2 (.inl ⟨hadv.1, not_mem_backEdges_of_advances hadv⟩)

/-- The first node reaches the same nodes in the result as in the given graph. -/
theorem reaches_first_iff_of_breakCycles (h : g.breakCycles limit = .ok d) :
    d.graph.adjacency.Reaches 0 y ↔ g.adjacency.Reaches 0 y := by
  constructor
  · exact reaches_of_breakCycles h
  · intro hy
    exact Relation.ReflTransGen.mono (fun _ _ hadv => mem_succ_of_advances h hadv) _ _
      (advances_of_reaches hy)

variable [DecidableEq κ] {k : κ}

/-- A key names the same node in the result as in the given graph. -/
theorem node?_of_breakCycles (h : g.breakCycles limit = .ok d) (hk : g.key? x = some k) :
    d.graph.node? k = some x := by
  rw [node?_eq_some_iff, key?, Digraph.label?, labels_of_breakCycles h]
  exact hk

variable [KeyText κ]

/-- With the key of a node there is a tree below this node if unreachable nodes are allowed. -/
theorem dominatorTree_of_key (h : g.breakCycles limit = .ok d) (hk : g.key? x = some k) :
    d.dominatorTree (some k) true = .ok (d.rootedTree x) :=
  d.dominatorTree_eq_ok_iff.2 ⟨d.anyTree_some (node?_of_breakCycles h hk), .inr rfl⟩

/-- Making a graph acyclic invents no reachability, and the first node loses none: it reaches the
same nodes before and after. So the tree below the first key leaves out, in ascending order, the
nodes that this key does not reach in the given graph. -/
theorem breakCycles_keeps_reachability (g : KeyedGraph κ) :
    ∃ d, g.breakCycles none = .ok d ∧
      (∀ x y, d.graph.adjacency.Reaches x y → g.adjacency.Reaches x y) ∧
      (∀ y, d.graph.adjacency.Reaches 0 y ↔ g.adjacency.Reaches 0 y) ∧
      ∀ k, g.key? 0 = some k →
        ∃ t, d.dominatorTree (some k) true = .ok t ∧ t.unreachable.Pairwise (· < ·) ∧
          ∀ v, v ∈ t.unreachable ↔ v < g.size ∧ ¬g.adjacency.Reaches 0 v := by
  obtain ⟨d, h⟩ := g.exists_breakCycles
  refine ⟨d, h, fun x y hxy => reaches_of_breakCycles h hxy,
    fun y => reaches_first_iff_of_breakCycles h, fun k hk => ?_⟩
  have hpos : 0 < d.graph.size := lt_size_of_node?_eq_some (node?_of_breakCycles h hk)
  refine ⟨_, dominatorTree_of_key h hk, Adjacency.pairwise_unreachable, fun v => ?_⟩
  rw [d.mem_unreachable_rootedTree hpos, reaches_first_iff_of_breakCycles h,
    size_of_breakCycles h]

end KeyedGraph

end FlowBubbles
