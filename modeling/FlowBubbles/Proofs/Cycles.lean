import FlowBubbles.Proofs.Dag.Turned
import FlowBubbles.Proofs.DominatorTree.Dominance

/-!
# The tests for cycles agree

A cycle that passes through two or more nodes keeps its nodes out of the line, gives the search a
back edge and lies in a component of more than one node (`StrongComponents.cycle_tests_agree`). Back
edges stay inside such components, and all copies of one are met (`Digraph.count_backEdges`), so that
the graph without them is a part of the acyclic graph that turning them leads to.
-/

namespace FlowBubbles

open DepthFirst

/-! ## Cycles as paths -/

namespace Adjacency

variable {a a' : Adjacency} {u v : Nat}

/-- A closed path through two or more nodes is what an acyclic graph does not have. -/
theorem acyclic_iff_closed_paths :
    a.Acyclic ↔ ∀ v p, Path (fun u v => v ∈ a.succ u) v v p → ∀ u ∈ p, u = v := by
  constructor
  · intro h v p hp u hu
    obtain ⟨q, hq, -⟩ := hp.exists_of_mem hu
    exact h u v ⟨hp.reaches_of_mem hu, hq.reaches⟩
  · intro h u v hmutual
    -- the way back is put behind the way there
    obtain ⟨p, hp⟩ := exists_path_iff.2 hmutual.1
    have hclosed : ∃ q, Path (fun u v => v ∈ a.succ u) u u q ∧ v ∈ q := by
      refine Relation.ReflTransGen.head_induction_on (motive := fun w _ =>
        ∀ p, Path (fun u v => v ∈ a.succ u) u w p → v ∈ p →
          ∃ q, Path (fun u v => v ∈ a.succ u) u u q ∧ v ∈ q) hmutual.2 ?_ ?_ p hp hp.mem_self
      · exact fun p hp hv => ⟨p, hp, hv⟩
      · exact fun hedge _ ih p hp hv => ih _ (.step hp hedge) (List.mem_cons_of_mem _ hv)
    obtain ⟨q, hq, hv⟩ := hclosed
    exact (h u q hq v hv).symm

/-- A part of an acyclic graph is acyclic. -/
theorem Acyclic.mono (h : a.Acyclic) (hsub : ∀ u v, v ∈ a'.succ u → v ∈ a.succ u) :
    a'.Acyclic := by
  have hreaches : ∀ {x y}, a'.Reaches x y → a.Reaches x y := fun hxy =>
    Relation.ReflTransGen.mono hsub _ _ hxy
  exact fun u v hmutual => h u v ⟨hreaches hmutual.1, hreaches hmutual.2⟩

end Adjacency

/-! ## Components of more than one node -/

namespace StrongComponents

variable {a : Adjacency} {vs : List Nat} {u v : Nat}

/-- Two different nodes of a component are on a cycle, and nodes of a cycle share a component. -/
theorem exists_nontrivial_iff :
    (∃ c ∈ a.strongComponents.components, 1 < c.length) ↔ ¬a.Acyclic := by
  have hsettled := settled a
  constructor
  · rintro ⟨vs, hvs, hlen⟩ hacyclic
    have hnodup := (List.nodup_flatten.1 hsettled.nodup).1 vs hvs
    have hmutual : a.Mutual vs[0] vs[1] :=
      (hsettled.mem_iff vs hvs _ (List.getElem_mem _) _).1 (List.getElem_mem _)
    exact absurd (hnodup.getElem_inj_iff.1 (hacyclic _ _ hmutual)) Nat.zero_ne_one
  · intro hcyclic
    obtain ⟨e, he⟩ := List.exists_mem_of_ne_nil _ (chosen_ne_nil hcyclic)
    obtain ⟨i, c, hc, hlen, -⟩ := mem_chosen.1 he
    exact ⟨c, List.mem_of_getElem? hc, hlen⟩

/-- A back edge stays in one component, which has more than one node. -/
theorem exists_component_of_mem_backEdges {e : Edge} (he : e ∈ a.strongComponents.backEdges) :
    ∃ c ∈ a.strongComponents.components, 1 < c.length ∧ e.source ∈ c ∧ e.target ∈ c := by
  obtain ⟨hne, hedge, -⟩ := of_mem_backEdges_depthFirst he
  have hmutual : a.Mutual e.source e.target :=
    ⟨.single hedge, reaches_of_mem_backEdges_depthFirst he⟩
  have hsource := mem_components_iff.2 (a.lt_of_mem_succ hedge).1
  obtain ⟨c, hc, hs, ht⟩ := ((settled a).exists_mem_iff hsource).2 hmutual
  have hsub : [e.source, e.target].Subperm c :=
    List.subperm_of_subset (by simpa using hne) (by simp [hs, ht])
  exact ⟨c, hc, hsub.length_le, hs, ht⟩

/-- A component of more than one node has a back edge inside it. -/
theorem exists_mem_backEdges_of_component (hvs : vs ∈ a.strongComponents.components)
    (hlen : 1 < vs.length) :
    ∃ e ∈ a.strongComponents.backEdges, e.source ∈ vs ∧ e.target ∈ vs := by
  have hsettled := settled a
  have hnodup := (List.nodup_flatten.1 hsettled.nodup).1 vs hvs
  have hne : vs[0] ≠ vs[1] := fun h => absurd (hnodup.getElem_inj_iff.1 h) Nat.zero_ne_one
  have hmem := hsettled.mem_iff vs hvs vs[0] (List.getElem_mem _)
  obtain ⟨e, he, hsource⟩ := exists_mem_backEdges ((hmem _).1 (List.getElem_mem _)) hne
  obtain ⟨-, hedge, -⟩ := of_mem_backEdges_depthFirst he
  have hmutual : a.Mutual e.source e.target :=
    ⟨.single hedge, reaches_of_mem_backEdges_depthFirst he⟩
  exact ⟨e, he, (hmem _).2 hsource, (hmem _).2 (hsource.trans hmutual)⟩

end StrongComponents

/-! ## The graph without its back edges -/

namespace Digraph

variable {κ : Type} {g : Digraph κ} {e : Edge}

/-- The graph whose nodes are their own keys. -/
def numbered (g : Digraph κ) : KeyedGraph Nat where
  labels := Array.range g.size
  edges := g.edges
  edges_lt := by simpa [size] using g.edges_lt
  nodup := by simpa using List.nodup_range

@[simp] theorem edges_numbered (g : Digraph κ) : g.numbered.edges = g.edges := rfl

@[simp] theorem adjacency_numbered (g : Digraph κ) : g.numbered.adjacency = g.adjacency := by
  have hsize : g.numbered.size = g.size := Array.size_range
  simp [adjacency, hsize]

/-- Every copy of a back edge is met as one. -/
theorem count_backEdges (he : e ∈ g.adjacency.strongComponents.backEdges) :
    g.adjacency.strongComponents.backEdges.count e = g.edges.toList.count e := by
  obtain ⟨d, hd⟩ := g.numbered.exists_breakCycles
  have hcount := (KeyedGraph.perm_edges_of_breakCycles hd).count_eq e
  have hgone := KeyedGraph.not_mem_edges_of_breakCycles hd (e := e)
  simp only [adjacency_numbered, edges_numbered, List.count_append] at hcount hgone
  -- neither the edge nor, as back edges are never flipped ones, another copy of it is left
  have hflip : e ∉ g.adjacency.strongComponents.backEdges.map Edge.flip := by
    rw [List.mem_map_of_involutive Edge.flip_flip]
    intro hmem
    have hlater := discovery_lt_of_mem_backEdges hmem
    rw [Edge.source_flip, Edge.target_flip] at hlater
    exact Nat.lt_asymm (discovery_lt_of_mem_backEdges he) hlater
  rwa [List.count_eq_zero_of_not_mem (hgone he), List.count_eq_zero_of_not_mem hflip, Nat.zero_add,
    Nat.add_zero] at hcount

/-- The back edges are edges, each listed no more often than the graph has it. -/
theorem subperm_backEdges (g : Digraph κ) :
    g.adjacency.strongComponents.backEdges.Subperm g.edges.toList :=
  List.subperm_ext_iff.2 fun _ he => Nat.le_of_eq (count_backEdges he)

/-- The graph without the listed edges: each is taken away as often as it is listed. -/
def eraseEdges (g : Digraph κ) (es : List Edge) : Digraph κ :=
  g.withEdges (g.edges.toList.diff es).toArray fun e he =>
    g.edges_lt e (by simpa using (List.diff_subset _ _) (List.mem_toArray.1 he))

/-- The edges that stay when the back edges are taken away are those that are none. -/
theorem mem_edges_eraseEdges_backEdges :
    e ∈ (g.eraseEdges g.adjacency.strongComponents.backEdges).edges ↔
      e ∈ g.edges ∧ e ∉ g.adjacency.strongComponents.backEdges := by
  have hmem : e ∈ (g.eraseEdges g.adjacency.strongComponents.backEdges).edges ↔
      e ∈ g.edges.toList.diff g.adjacency.strongComponents.backEdges := List.mem_toArray
  rw [hmem, ← List.count_pos_iff, List.count_diff, ← Array.mem_toList_iff]
  by_cases he : e ∈ g.adjacency.strongComponents.backEdges
  · rw [count_backEdges he]
    simp [he]
  · rw [List.count_eq_zero_of_not_mem he, Nat.sub_zero, List.count_pos_iff]
    simp [he]

/-- Without its back edges a graph is acyclic. -/
theorem acyclic_eraseEdges_backEdges (g : Digraph κ) :
    (g.eraseEdges g.adjacency.strongComponents.backEdges).adjacency.Acyclic := by
  obtain ⟨d, hd⟩ := g.numbered.exists_breakCycles
  refine d.isTopological_order.acyclic.mono fun u v hedge => ?_
  have hmem := Array.mem_toList_iff.1 (mem_succ_adjacency.1 hedge)
  have hkept := mem_edges_eraseEdges_backEdges.1 hmem
  refine mem_succ_adjacency.2 ((KeyedGraph.mem_edges_iff_of_breakCycles hd).2 (.inl ?_))
  simpa using hkept

end Digraph

/-! ## The tests -/

/-- The tests for cycles agree: there is no topological order exactly if the search meets a back
edge, exactly if some component has more than one node, and exactly if a closed path passes through
two or more nodes. A back edge lies in a component of more than one node, and each such component has
one. A back edge leads to a node that is discovered before its source and reaches it. Without the
back edges, each taken away as often as it is listed, loops are the only cycles. -/
theorem StrongComponents.cycle_tests_agree {κ : Type} (g : Digraph κ) :
    let s := g.adjacency.strongComponents
    (g.adjacency.topologicalOrder = none ↔ s.backEdges ≠ []) ∧
      (s.backEdges ≠ [] ↔ ∃ c ∈ s.components, 1 < c.length) ∧
      ((∃ c ∈ s.components, 1 < c.length) ↔
        ∃ v p, Path (fun u v => v ∈ g.adjacency.succ u) v v p ∧ ∃ u ∈ p, u ≠ v) ∧
      (∀ e ∈ s.backEdges, ∃ c ∈ s.components, 1 < c.length ∧ e.source ∈ c ∧ e.target ∈ c) ∧
      (∀ c ∈ s.components, 1 < c.length →
        ∃ e ∈ s.backEdges, e.source ∈ c ∧ e.target ∈ c) ∧
      (∀ e ∈ s.backEdges, s.discovery.get e.target < s.discovery.get e.source ∧
        g.adjacency.Reaches e.target e.source) ∧
      s.backEdges.Subperm g.edges.toList ∧
      ∀ v p, Path (fun u v => v ∈ (g.eraseEdges s.backEdges).adjacency.succ u) v v p →
        ∀ u ∈ p, u = v := by
  intro s
  have hback : s.backEdges ≠ [] ↔ ¬g.adjacency.Acyclic :=
    (not_congr acyclic_iff_backEdges_eq_nil).symm
  have horder : g.adjacency.topologicalOrder = none ↔ ¬g.adjacency.Acyclic := by
    rw [← Adjacency.exists_topologicalOrder_iff, ← Option.isSome_iff_exists,
      Option.not_isSome_iff_eq_none]
  refine ⟨horder.trans hback.symm, hback.trans exists_nontrivial_iff.symm, ?_,
    fun e => exists_component_of_mem_backEdges, fun c => exists_mem_backEdges_of_component,
    fun e he => ⟨discovery_lt_of_mem_backEdges he, reaches_of_mem_backEdges_depthFirst he⟩,
    g.subperm_backEdges, Adjacency.acyclic_iff_closed_paths.1 g.acyclic_eraseEdges_backEdges⟩
  rw [exists_nontrivial_iff, Adjacency.acyclic_iff_closed_paths]
  push Not
  rfl

end FlowBubbles
