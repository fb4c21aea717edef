import FlowBubbles.Proofs.Dag.Positions
import FlowBubbles.Proofs.Dag.Reachability
import FlowBubbles.Proofs.DominatorTree.Edges
import FlowBubbles.Proofs.KeyedGraph.Growth

/-!
# Results by keys

Results are lists of nodes and edges, and each has a view by keys. A view leaves out what is no node
of the graph, so nothing is lost in it exactly because all results are about nodes of the graph
(`KeyedGraph.oneForOne_keysOf`, `KeyedGraph.oneForOne_keyPairsOf`). In particular, no result by keys
holds a super-root.
-/

namespace FlowBubbles

/-- The listed values are those of a partial function at the listed places, one for one, and each
leads back to its place. -/
structure OneForOne {α β : Type} (view : α → Option β) (back : β → Option α) (places : List α)
    (values : List β) : Prop where
  length_eq : values.length = places.length
  map_view : places.map view = values.map some
  map_back : values.map back = places.map some

/-- If the function has a value at all places and values lead back, leaving places without a value
out leaves none out. -/
theorem oneForOne_filterMap {α β : Type} {view : α → Option β} {back : β → Option α}
    {places : List α} (hsome : ∀ x ∈ places, ∃ y, view x = some y)
    (hback : ∀ {x y}, view x = some y → back y = some x) :
    OneForOne view back places (places.filterMap view) := by
  induction places with
  | nil => exact ⟨rfl, rfl, rfl⟩
  | cons x places ih =>
    obtain ⟨⟨y, hy⟩, hrest⟩ := List.forall_mem_cons.1 hsome
    have ih := ih hrest
    rw [List.filterMap_cons_some hy]
    exact ⟨congrArg Nat.succ ih.length_eq, congrArg₂ List.cons hy ih.map_view,
      congrArg₂ List.cons (hback hy) ih.map_back⟩

/-! ## Nodes and edges of a graph -/

namespace KeyedGraph

variable {κ : Type} [DecidableEq κ] {g : KeyedGraph κ} {e : Edge} {p : κ × κ}

/-- The edge between the nodes of two keys. -/
def edge? (g : KeyedGraph κ) (p : κ × κ) : Option Edge := do
  return ⟨← g.node? p.1, ← g.node? p.2⟩

theorem edge?_eq_some_of_keyPair? (h : g.keyPair? e = some p) : g.edge? p = some e := by
  obtain ⟨hsource, htarget⟩ := keyPair?_eq_some_iff.1 h
  simp [edge?, node?_eq_some_iff.2 hsource, node?_eq_some_iff.2 htarget]

/-- Nodes of the graph have keys that lead back to them. -/
theorem oneForOne_keysOf {vs : List Nat} (h : ∀ v ∈ vs, v < g.size) :
    OneForOne g.key? g.node? vs (g.keysOf vs) :=
  oneForOne_filterMap (fun v hv => exists_key? (h v hv)) node?_eq_some_iff.2

/-- Edges between nodes of the graph have pairs of keys that lead back to them. -/
theorem oneForOne_keyPairsOf {es : List Edge}
    (h : ∀ e ∈ es, e.source < g.size ∧ e.target < g.size) :
    OneForOne g.keyPair? g.edge? es (g.keyPairsOf es) := by
  refine oneForOne_filterMap (fun e he => ?_) edge?_eq_some_of_keyPair?
  obtain ⟨s, hs⟩ := exists_key? (h e he).1
  obtain ⟨t, ht⟩ := exists_key? (h e he).2
  exact ⟨(s, t), keyPair?_eq_some_iff.2 ⟨hs, ht⟩⟩

end KeyedGraph

/-! ## Results of an analysis -/

section

variable {κ σ : Type} [DecidableEq κ] [KeyText κ] {c : Config κ} {g : KeyedGraph κ}
  {r : Report κ}

/-- The results of an analysis that succeeds are about nodes of the graph: each view by keys has the
keys of the listed nodes, or of the ends of the listed edges, one for one, and they lead back to these
nodes and edges. This includes the edges of the tree and its bubbles, whether or not there is a
super-root and whether or not it is part of the result. A key names the same node as in the given
graph. -/
theorem Report.key_views_complete {observers : List (Observer κ σ)} {s : σ}
    (h : (analyzeWith c observers g s).1 = .ok r) :
    let result := r.dag.graph
    let Nodes := OneForOne result.key? result.node?
    let Edges := OneForOne result.keyPair? result.edge?
    Edges r.tree.edges r.treeEdgeKeys ∧
      Edges (r.bubbles.map Bubble.edge) r.bubbleKeys ∧
      Nodes r.tree.unreachable r.unreachableKeys ∧
      Edges r.dag.reversed r.dag.reversedKeys ∧
      Nodes r.dag.order r.dag.orderKeys ∧
      Edges result.edges.toList result.edgeKeys ∧
      result.node? = g.node? := by
  obtain ⟨hdag, htree, hbubbles⟩ := stages_of_analyze (analyze_of_analyzeWith h)
  have hconsistent := r.dag.consistent_of_dominatorTree htree
  have hedges : ∀ e ∈ r.tree.edges, e.source < r.dag.graph.size ∧ e.target < r.dag.graph.size :=
    fun e he => (hconsistent.ends_mem_nodes he).imp
      (fun hsource => (hconsistent.mem_nodes_iff.1 hsource).2)
      fun htarget => (hconsistent.mem_nodes_iff.1 htarget).2
  refine ⟨?_, ?_, ?_, ?_, ?_, ?_, ?_⟩
  · exact KeyedGraph.oneForOne_keyPairsOf hedges
  · refine KeyedGraph.oneForOne_keyPairsOf fun e he => ?_
    obtain ⟨b, hb, rfl⟩ := List.mem_map.1 he
    rw [hbubbles] at hb
    exact hedges _ (r.dag.edge_mem_edges htree hb)
  · exact KeyedGraph.oneForOne_keysOf fun v hv => hconsistent.lt_of_mem_unreachable hv
  · refine KeyedGraph.oneForOne_keyPairsOf fun e he => ?_
    have hmem := (KeyedGraph.subperm_reversed_of_breakCycles hdag).subset he
    rw [KeyedGraph.size_of_breakCycles hdag]
    exact g.edges_lt e (Array.mem_toList_iff.1 hmem)
  · exact KeyedGraph.oneForOne_keysOf fun v hv => r.dag.isTopological_order.mem_iff.1 hv
  · exact KeyedGraph.oneForOne_keyPairsOf fun e he =>
      r.dag.graph.edges_lt e (Array.mem_toList_iff.1 he)
  · funext k
    rw [KeyedGraph.node?, KeyedGraph.labels_of_breakCycles hdag]
    rfl

end

theorem Report.key_views_backAndForth :
    ∃ r, (analyzeWith { entry := some "b", allowUnreachable := true }
        ([] : List (Observer String Unit)) KeyedGraph.backAndForth ()).1 = .ok r ∧
      r.unreachableKeys.map r.dag.graph.node? = [some 0] ∧
      r.bubbleKeys.map r.dag.graph.edge? = [some ⟨1, 2⟩] ∧
      r.dag.reversedKeys.map r.dag.graph.edge? = [some ⟨1, 0⟩] := by
  have hread : (analyzeWith { entry := some "b", allowUnreachable := true }
      ([] : List (Observer String Unit)) KeyedGraph.backAndForth ()).1.map (fun r =>
        (r.tree.unreachable, r.bubbles, r.dag.reversed)) = .ok ([0], [⟨1, 2⟩], [⟨1, 0⟩]) := by
    decide +kernel
  cases hr : (analyzeWith { entry := some "b", allowUnreachable := true }
      ([] : List (Observer String Unit)) KeyedGraph.backAndForth ()).1 with
  | error e => simp [hr, Except.map] at hread
  | ok r =>
    rw [hr, Except.map, Except.ok.injEq, Prod.mk.injEq, Prod.mk.injEq] at hread
    obtain ⟨hunreachable, hbubbles, hreversed⟩ := hread
    obtain ⟨-, hbubbleKeys, hunreachableKeys, hreversedKeys, -⟩ := Report.key_views_complete hr
    refine ⟨r, rfl, ?_, ?_, ?_⟩
    · rw [hunreachableKeys.map_back, hunreachable]
      rfl
    · rw [hbubbleKeys.map_back, hbubbles]
      rfl
    · rw [hreversedKeys.map_back, hreversed]
      rfl

end FlowBubbles
