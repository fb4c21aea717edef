import FlowBubbles.Proofs.Dag.Progress
import FlowBubbles.Proofs.TopologicalOrder

/-!
# Breaking cycles succeeds

A pass leaves the depth-first search intact, so that the turned edges are never met as back edges
again (`Draft.search_intact`). The passes therefore use up the back edges of the given graph, each
of which is turned once, and the result has a topological order
(`KeyedGraph.breakCycles_correct`).
-/

namespace FlowBubbles

open DepthFirst

variable {κ : Type}

namespace Arc

theorem length_turn (arcs : List Arc) (e : Edge) : (turn arcs e).length = arcs.length := by
  rw [turn]
  split
  · rename_i hany
    obtain ⟨b, hb, hbe⟩ := List.any_eq_true.1 hany
    have hpos := List.length_pos_of_mem hb
    rw [List.length_append, List.length_eraseP_of_mem hb hbe, List.length_singleton]
    omega
  · rfl

theorem length_foldl_turn (es : List Edge) (arcs : List Arc) :
    (es.foldl turn arcs).length = arcs.length := by
  induction es generalizing arcs with
  | nil => rfl
  | cons e es ih => rw [List.foldl_cons, ih, length_turn]

end Arc

namespace Draft

variable {d : Draft κ} {budget : Nat} {order : List Nat}

/-! ## Passes and the search -/

theorem discovery_pass (d : Draft κ) :
    d.pass.graph.adjacency.strongComponents.discovery =
      d.graph.adjacency.strongComponents.discovery :=
  congrArg (NodeMap.positions · 0) d.depthFirst_pass.1

theorem backEdges_pass (d : Draft κ) :
    d.pass.graph.adjacency.strongComponents.backEdges =
      d.graph.adjacency.strongComponents.backEdges.diff d.graph.adjacency.strongComponents.chosen :=
  d.depthFirst_pass.2.1

theorem discovery_iterate_pass (n : Nat) (d : Draft κ) :
    (pass^[n] d).graph.adjacency.strongComponents.discovery =
      d.graph.adjacency.strongComponents.discovery := by
  induction n generalizing d with
  | zero => rfl
  | succ n ih => rw [Function.iterate_succ_apply, ih, discovery_pass]

/-- No pass turns an edge around twice: against the order of discovery, a turned edge is never a
back edge again. -/
theorem flip_not_mem_backEdges {e : Edge}
    (he : e ∈ d.graph.adjacency.strongComponents.backEdges) (n : Nat) :
    e.flip ∉ (pass^[n] d).graph.adjacency.strongComponents.backEdges := by
  intro hflip
  have hlt := discovery_lt_of_mem_backEdges he
  have hlt' := discovery_lt_of_mem_backEdges hflip
  rw [discovery_iterate_pass] at hlt'
  exact Nat.lt_asymm hlt hlt'

theorem subperm_chosen (d : Draft κ) :
    d.graph.adjacency.strongComponents.chosen.Subperm
      d.graph.adjacency.strongComponents.backEdges :=
  List.subperm_of_subset (StrongComponents.nodup_chosen _) fun _ he =>
    StrongComponents.mem_backEdges_of_mem_chosen he

/-- The chosen edges and the back edges after the pass are the back edges before it. -/
theorem perm_backEdges_pass (d : Draft κ) :
    (d.graph.adjacency.strongComponents.chosen ++
        d.pass.graph.adjacency.strongComponents.backEdges).Perm
      d.graph.adjacency.strongComponents.backEdges := by
  rw [backEdges_pass]
  exact List.subperm_append_diff_self_of_count_le
    (List.subperm_ext_iff.1 d.subperm_chosen)

/-- A pass turns chosen edges around, of which there are some if there is a cycle of two or more
nodes: the first copy of each is taken away, and the flipped edge is put at the end. The discovery
of the nodes stays as it is, and the list of back edges loses one copy of each chosen edge and no
more. So no flipped edge is a back edge, be it now or after any number of passes. -/
theorem search_intact (d : Draft κ) :
    let before := d.graph.adjacency.strongComponents
    let after := d.pass.graph.adjacency.strongComponents
    (¬d.graph.adjacency.Acyclic → before.chosen ≠ []) ∧
      d.pass.graph.edges.toList =
        before.chosen.foldl (fun edges e => edges.erase e ++ [e.flip]) d.graph.edges.toList ∧
      after.discovery = before.discovery ∧
      before.chosen.Subperm before.backEdges ∧
      after.backEdges = before.backEdges.diff before.chosen ∧
      ∀ e ∈ before.chosen, ∀ n,
        e.flip ∉ (pass^[n] d).graph.adjacency.strongComponents.backEdges :=
  ⟨StrongComponents.chosen_ne_nil, d.depthFirst_pass.2.2, d.discovery_pass, d.subperm_chosen,
    d.backEdges_pass, fun _ he n =>
      flip_not_mem_backEdges (StrongComponents.mem_backEdges_of_mem_chosen he) n⟩

/-! ## All passes -/

theorem settle_of_topologicalOrder (h : d.graph.adjacency.topologicalOrder = some order)
    (budget : Nat) :
    d.settle budget = .ok ⟨d.graph, order, h, d.rounds, Arc.turnedAt d.arcs⟩ := by
  unfold settle
  split
  · rename_i order' h'
    obtain rfl : order = order' := Option.some.inj (h.symm.trans h')
    rfl
  · rename_i h'
    cases h.symm.trans h'

theorem settle_succ (h : d.graph.adjacency.topologicalOrder = none) (budget : Nat) :
    d.settle (budget + 1) = d.pass.settle budget := by
  rw [settle]
  split
  · rename_i h'
    cases h.symm.trans h'
  · rfl

theorem edgeCount_graph (d : Draft κ) : d.graph.edgeCount = d.arcs.length := by
  rw [Digraph.edgeCount, ← Array.length_toList, edges_graph, List.length_map]

theorem edgeCount_pass (d : Draft κ) : d.pass.graph.edgeCount = d.graph.edgeCount := by
  rw [edgeCount_graph, edgeCount_graph, pass, turn]
  exact Arc.length_foldl_turn ..

/-- An acyclic graph needs no pass. -/
theorem exists_settle_of_acyclic (h : d.graph.adjacency.Acyclic) (budget : Nat) :
    ∃ r, d.settle budget = .ok r ∧ r.graph = d.graph ∧ r.rounds = d.rounds := by
  obtain ⟨order, horder⟩ := Adjacency.exists_topologicalOrder_iff.2 h
  exact ⟨_, settle_of_topologicalOrder horder budget, rfl, rfl⟩

/-- In a graph with a cycle the next pass is made. -/
theorem settle_succ_of_not_acyclic (h : ¬d.graph.adjacency.Acyclic) (budget : Nat) :
    d.settle (budget + 1) = d.pass.settle budget := by
  refine settle_succ (Option.eq_none_iff_forall_ne_some.2 fun order horder => ?_) budget
  exact h (Adjacency.exists_topologicalOrder_iff.1 ⟨order, horder⟩)

/-- As many passes as there are back edges suffice, and turn each of the back edges once. -/
theorem exists_settle_eq_ok
    (hbudget : d.graph.adjacency.strongComponents.backEdges.length ≤ budget) :
    ∃ r, d.settle budget = .ok r ∧ r.graph.labels = d.graph.labels ∧
      r.graph.edgeCount = d.graph.edgeCount ∧
      r.reversed.Perm (d.rounds.flatten ++ d.graph.adjacency.strongComponents.backEdges) := by
  induction budget generalizing d with
  | zero =>
    have hnil := List.eq_nil_of_length_eq_zero (Nat.le_zero.1 hbudget)
    obtain ⟨r, hr, hgraph, hrounds⟩ :=
      exists_settle_of_acyclic (acyclic_iff_backEdges_eq_nil.2 hnil) 0
    exact ⟨r, hr, by rw [hgraph], by rw [hgraph], by simp [Dag.reversed, hrounds, hnil]⟩
  | succ budget ih =>
    by_cases hacyclic : d.graph.adjacency.Acyclic
    · have hnil : d.graph.adjacency.strongComponents.backEdges = [] :=
        acyclic_iff_backEdges_eq_nil.1 hacyclic
      obtain ⟨r, hr, hgraph, hrounds⟩ := exists_settle_of_acyclic hacyclic (budget + 1)
      exact ⟨r, hr, by rw [hgraph], by rw [hgraph], by simp [Dag.reversed, hrounds, hnil]⟩
    · -- the pass turns an edge, which leaves fewer back edges
      have hchosen := List.length_pos_iff.2 (StrongComponents.chosen_ne_nil hacyclic)
      have hperm := d.perm_backEdges_pass
      have hlength := hperm.length_eq
      rw [List.length_append] at hlength
      obtain ⟨r, hr, hlabels, hcount, hreversed⟩ := ih (d := d.pass) (by omega)
      refine ⟨r, (settle_succ_of_not_acyclic hacyclic _).trans hr, hlabels,
        hcount.trans d.edgeCount_pass, ?_⟩
      -- what the pass has turned moves from the back edges to the rounds
      calc r.reversed.Perm _ := hreversed
        _ = d.rounds.flatten ++ (d.graph.adjacency.strongComponents.chosen ++
              d.pass.graph.adjacency.strongComponents.backEdges) := by
            simp [pass, turn]
        List.Perm _ _ := hperm.append_left _

theorem graph_ofGraph (g : KeyedGraph κ) : (ofGraph g).graph = g := by
  have hedges : ((ofGraph g).arcs.map Arc.edge).toArray = g.edges := by
    simp [ofGraph, Function.comp_def]
  obtain ⟨⟨labels, edges, hlt⟩, hnodup⟩ := g
  simp only [graph, KeyedGraph.withEdges, Digraph.withEdges, hedges]
  rfl

end Draft

/-! ## Making a graph acyclic -/

namespace Dag

variable (d : Dag κ)

theorem isTopological_order : d.graph.adjacency.IsTopological d.order :=
  Adjacency.isTopological_of_topologicalOrder_eq_some d.order_eq

theorem rank?_eq (v : Nat) :
    d.rank? v = if v ∈ d.order then some (d.order.idxOf v) else none := by
  have htop := d.isTopological_order
  have hnode : d.graph.hasNode v = true ↔ v ∈ d.order := by
    rw [htop.mem_iff]
    exact decide_eq_true_iff
  rw [rank?, ranks, NodeMap.get_positions htop.nodup]
  by_cases hv : v ∈ d.order
  · rw [if_pos (hnode.2 hv), if_pos hv, if_pos hv]
  · rw [if_neg (mt hnode.1 hv), if_neg hv]

/-- The rank of a node is its position in the order. -/
theorem rank?_eq_some_iff {v i : Nat} : d.rank? v = some i ↔ d.order[i]? = some v := by
  rw [rank?_eq, Option.ite_none_right_eq_some, Option.some.injEq]
  constructor
  · rintro ⟨hv, rfl⟩
    exact List.getElem?_idxOf hv
  · intro h
    obtain ⟨hi, rfl⟩ := List.getElem?_eq_some_iff.1 h
    exact ⟨List.getElem_mem hi, d.isTopological_order.nodup.idxOf_getElem i hi⟩

end Dag

namespace KeyedGraph

/-- Without a limit a graph is always made acyclic. The nodes, their keys and the number of edges
stay the same. The order holds all nodes, a node's rank is its position in it, and every edge but a
loop leads to a greater rank. The turned edges are the back edges of the given graph, and the result
has no edge left to turn, whatever the limit. -/
theorem breakCycles_correct (g : KeyedGraph κ) :
    ∃ d, g.breakCycles none = .ok d ∧
      d.graph.labels = g.labels ∧ d.graph.edgeCount = g.edgeCount ∧
      d.order.Perm g.nodes ∧ (∀ v i, d.rank? v = some i ↔ d.order[i]? = some v) ∧
      (∀ e ∈ d.graph.edges, e.source ≠ e.target →
        ∃ i j, d.rank? e.source = some i ∧ d.rank? e.target = some j ∧ i < j) ∧
      d.reversed.Perm g.adjacency.strongComponents.backEdges ∧
      ∀ limit, ∃ d', d.graph.breakCycles limit = .ok d' ∧
        d'.passes = 0 ∧ d'.graph = d.graph ∧ d'.order = d.order := by
  have hgraph := Draft.graph_ofGraph g
  have hbudget : (Draft.ofGraph g).graph.adjacency.strongComponents.backEdges.length ≤
      g.edgeCount := by
    rw [hgraph]
    exact g.length_backEdges_le
  obtain ⟨d, hd, hlabels, hcount, hreversed⟩ := Draft.exists_settle_eq_ok hbudget
  rw [hgraph] at hlabels hcount hreversed
  have htop := d.isTopological_order
  refine ⟨d, hd, hlabels, hcount, ?_, fun v i => d.rank?_eq_some_iff, fun e he hne => ?_,
    by simpa [Draft.ofGraph] using hreversed, fun limit => ?_⟩
  · have hnodes : d.graph.adjacency.nodes = g.nodes := by
      simp [Adjacency.nodes, Digraph.nodes, Digraph.size, hlabels]
    exact hnodes ▸ htop.perm
  · have hedge : e.target ∈ d.graph.adjacency.succ e.source :=
      Digraph.mem_succ_adjacency.2 (by simpa using he)
    obtain ⟨hs, ht⟩ := d.graph.adjacency.lt_of_mem_succ hedge
    refine ⟨_, _, ?_, ?_, htop.forward _ _ hedge hne⟩
    · rw [d.rank?_eq, if_pos (htop.mem_iff.2 hs)]
    · rw [d.rank?_eq, if_pos (htop.mem_iff.2 ht)]
  · have horder : (Draft.ofGraph d.graph).graph.adjacency.topologicalOrder = some d.order := by
      rw [Draft.graph_ofGraph, d.order_eq]
    exact ⟨_, Draft.settle_of_topologicalOrder horder _, rfl, Draft.graph_ofGraph _, rfl⟩

end KeyedGraph

end FlowBubbles
