import FlowBubbles.Proofs.Bubble
import FlowBubbles.Proofs.DominatorTree.Consistency

/-!
# The edges of a tree

An edge of a tree leads to a node from its immediate dominator. It ends at a node of the graph, and
so it starts unless it starts at the super-root. The nodes at its ends are listed in its direction
and differ by one in depth. All this is read off the tree being consistent
(`DominatorTree.Consistent`), which every tree of an acyclic graph is. The edge from the start of a
bubble to its end is one of these edges.
-/

namespace FlowBubbles

namespace DominatorTree

variable {t : DominatorTree} {n p v : Nat} {e : Edge}

theorem isSuperRoot_eq_false_iff : t.isSuperRoot v = false ↔ t.superRoot ≠ some v := by
  rw [isSuperRoot, beq_eq_false_iff_ne]

theorem isSuperRoot_of_mem_nodes (hv : v ∈ t.nodes) : t.isSuperRoot v = false :=
  Bool.eq_false_of_not_eq_true' (List.mem_filter.1 hv).2

namespace Consistent

/-! ## Parents -/

theorem contains_parent (h : t.Consistent n) (hp : t.immediateDominator v = some p) :
    t.contains p = true := by
  have hv := (h.mem_order_iff v).2 (Ranked.contains_of_immediateDominator hp)
  have hlt := (h.idxOf_lt p v hp).trans (List.idxOf_lt_length_of_mem hv)
  exact (h.mem_order_iff p).1 (List.idxOf_lt_length_iff.1 hlt)

/-- A node is one step further down than its immediate dominator. -/
theorem exists_depth (h : t.Consistent n) (hp : t.immediateDominator v = some p) :
    ∃ k, t.depth p = some k ∧ t.depth v = some (k + 1) := by
  obtain ⟨hsome, hup⟩ := h.depth p (h.contains_parent hp)
  obtain ⟨k, hk⟩ := Option.isSome_iff_exists.1 hsome
  refine ⟨k, hk, ((h.depth v (Ranked.contains_of_immediateDominator hp)).2 (k + 1)).1 ?_⟩
  rw [above?, hp, Option.bind_some]
  exact (hup k).2 hk

theorem depth_root (h : t.Consistent n) : t.depth t.root = some 0 :=
  ((h.depth t.root h.contains_root).2 0).1 rfl

/-- A super-root is the root, and no node of the graph. -/
theorem of_superRoot (h : t.Consistent n) (hsuper : t.superRoot = some p) :
    t.root = p ∧ p = n := by
  rcases h.superRoot with hnone | ⟨hsome, hroot⟩
  · simp [hnone] at hsuper
  · obtain rfl : t.root = p := Option.some.inj (hsome.symm.trans hsuper)
    exact ⟨rfl, hroot⟩

/-! ## Nodes of the graph -/

theorem mem_nodes_iff (h : t.Consistent n) : v ∈ t.nodes ↔ t.contains v = true ∧ v < n := by
  constructor
  · intro hv
    have hlt := h.partition.subset (List.mem_append_left _ hv)
    exact ⟨(h.contains_iff v).2 (.inl hv), List.mem_range.1 hlt⟩
  · rintro ⟨hv, hlt⟩
    refine ((h.contains_iff v).1 hv).resolve_right fun hsuper => ?_
    exact Nat.ne_of_lt hlt (h.of_superRoot hsuper).2

theorem lt_of_mem_unreachable (h : t.Consistent n) (hv : v ∈ t.unreachable) : v < n :=
  List.mem_range.1 (h.partition.subset (List.mem_append_right _ hv))

/-- What has an immediate dominator is a node of the graph. -/
theorem mem_nodes_of_immediateDominator (h : t.Consistent n)
    (hp : t.immediateDominator v = some p) : v ∈ t.nodes := by
  have hv := Ranked.contains_of_immediateDominator hp
  refine ((h.contains_iff v).1 hv).resolve_right fun hsuper => ?_
  exact (Ranked.of_immediateDominator hp).1 (h.of_superRoot hsuper).1.symm

theorem parent_mem_nodes (h : t.Consistent n) (hp : t.immediateDominator v = some p)
    (hsuper : t.superRoot ≠ some p) : p ∈ t.nodes :=
  ((h.contains_iff p).1 (h.contains_parent hp)).resolve_right hsuper

/-! ## Edges -/

theorem mem_edgesWithSuperRoot_iff (h : t.Consistent n) :
    e ∈ t.edgesWithSuperRoot ↔ t.immediateDominator e.target = some e.source := by
  refine ⟨immediateDominator_of_mem_edgesWithSuperRoot, fun hp => ?_⟩
  have hmem := (h.mem_order_iff e.target).2 (Ranked.contains_of_immediateDominator hp)
  exact List.mem_filterMap.2 ⟨e.target, hmem, by rw [hp]; rfl⟩

theorem mem_edges_iff (h : t.Consistent n) :
    e ∈ t.edges ↔
      t.immediateDominator e.target = some e.source ∧ t.superRoot ≠ some e.source := by
  rw [edges, List.mem_filter, h.mem_edgesWithSuperRoot_iff, Bool.not_eq_true',
    isSuperRoot_eq_false_iff]

/-- No edge is listed twice, since no two lead to the same node. -/
theorem nodup_edgesWithSuperRoot (h : t.Consistent n) : t.edgesWithSuperRoot.Nodup := by
  refine List.Nodup.of_map Edge.target ?_
  rw [h.edge_targets]
  exact h.nodup_order.filter _

/-- The edges without those of the super-root run between nodes of the graph. -/
theorem ends_mem_nodes (h : t.Consistent n) (he : e ∈ t.edges) :
    e.source ∈ t.nodes ∧ e.target ∈ t.nodes := by
  obtain ⟨hp, hsuper⟩ := h.mem_edges_iff.1 he
  exact ⟨h.parent_mem_nodes hp hsuper, h.mem_nodes_of_immediateDominator hp⟩

end Consistent

end DominatorTree

/-! ## The tree of an acyclic graph -/

namespace Dag

variable {κ : Type} [DecidableEq κ] [KeyText κ] (d : Dag κ) {entry : Option κ} {allow : Bool}
  {t : DominatorTree} {b : Bubble}

theorem consistent_of_dominatorTree (h : d.dominatorTree entry allow = .ok t) :
    t.Consistent d.graph.size := by
  rcases d.tree_cases h with ⟨root, hroot, rfl⟩ | ⟨-, rfl⟩
  · exact (d.isTopological_order.suits hroot).consistent
  · exact d.consistent_joinedTree

/-- A bubble runs along an edge of the tree. -/
theorem edge_mem_edges (h : d.dominatorTree entry allow = .ok t) (hb : b ∈ d.bubbles t) :
    b.edge ∈ t.edges := by
  obtain ⟨⟨hsuper, -⟩, -, hdom, -⟩ := (d.mem_bubbles_iff h).1 hb
  refine (d.consistent_of_dominatorTree h).mem_edges_iff.2 ⟨?_, hsuper⟩
  exact ((d.agreesWith_of_dominatorTree h).immediateDominator_iff _ _).2 hdom

end Dag

/-! ## The edges of a report -/

namespace Report

variable {κ : Type} {r : Report κ} {n : Nat} {e : Edge}

theorem mem_treeEdges_iff (h : r.tree.Consistent n) :
    e ∈ r.treeEdges ↔
      r.tree.immediateDominator e.target = some e.source ∧
        (r.includesSuperRoot = true ∨ r.tree.superRoot ≠ some e.source) := by
  rw [treeEdges]
  cases hincludes : r.includesSuperRoot with
  | true => simp [h.mem_edgesWithSuperRoot_iff]
  | false => simp [h.mem_edges_iff]

/-- The edges without those of the super-root are always among them. -/
theorem mem_treeEdges_of_mem_edges (h : r.tree.Consistent n) (he : e ∈ r.tree.edges) :
    e ∈ r.treeEdges := by
  obtain ⟨hp, hsuper⟩ := h.mem_edges_iff.1 he
  exact (mem_treeEdges_iff h).2 ⟨hp, .inr hsuper⟩

theorem nodup_treeEdges (h : r.tree.Consistent n) : r.treeEdges.Nodup := by
  rw [treeEdges]
  split
  · exact h.nodup_edgesWithSuperRoot
  · exact h.nodup_edgesWithSuperRoot.filter _

end Report

/-- Whether the super-root is part of the result is as configured. -/
theorem includesSuperRoot_of_analyze {κ : Type} [DecidableEq κ] [KeyText κ] {c : Config κ}
    {g : KeyedGraph κ} {r : Report κ} (h : (analyze c g).outcome = .ok r) :
    r.includesSuperRoot = c.includeSuperRoot := by
  unfold analyze at h
  split at h
  · cases h
  · split at h
    · cases h
    · obtain rfl := Except.ok.inj h
      rfl

end FlowBubbles
