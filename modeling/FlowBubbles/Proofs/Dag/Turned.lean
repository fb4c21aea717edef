import FlowBubbles.Proofs.Dag.CycleBreaking
import FlowBubbles.Proofs.DepthFirst.Tree

/-!
# The edges of an acyclic graph

A pass trades edges for flipped ones, and all back edges are traded in the end. So the edges of the
result together with the back edges of the given graph are, up to their order, the edges of the
given graph together with its flipped back edges (`KeyedGraph.perm_edges_of_breakCycles`). Which
edges the result has follows from this, and from the fact that no back edge runs the other way of
another one.
-/

namespace FlowBubbles

open DepthFirst

variable {κ : Type}

/-- The edges that are taken away and the flipped edges that are put at the end balance. -/
theorem perm_foldl_flip {es edges : List Edge} (hnodup : es.Nodup) (hsub : es ⊆ edges) :
    (es.foldl (fun edges e => edges.erase e ++ [e.flip]) edges ++ es).Perm
      (edges ++ es.map Edge.flip) := by
  induction es generalizing edges with
  | nil => simp
  | cons e es ih =>
    rw [List.nodup_cons] at hnodup
    have he : e ∈ edges := hsub List.mem_cons_self
    have hsub' : es ⊆ edges.erase e ++ [e.flip] := by
      intro f hf
      have hfe : f ≠ e := fun h => hnodup.1 (h ▸ hf)
      exact List.mem_append_left _
        ((List.mem_erase_of_ne hfe).2 (hsub (List.mem_cons_of_mem _ hf)))
    calc (es.foldl (fun edges e => edges.erase e ++ [e.flip]) (edges.erase e ++ [e.flip]) ++
            e :: es).Perm _ := List.perm_middle
      List.Perm _ (e :: ((edges.erase e ++ [e.flip]) ++ es.map Edge.flip)) :=
        (ih hnodup.2 hsub').cons e
      _ = (e :: edges.erase e) ++ (e :: es).map Edge.flip := by simp
      List.Perm _ _ := (List.perm_cons_erase he).symm.append_right _

namespace Draft

variable {d : Draft κ} {r : Dag κ} {budget : Nat}

/-- What holds after any number of passes: the edges that were turned are balanced by flipped ones,
and together with the back edges that are left they are the back edges of the given graph. -/
structure Balanced (d : Draft κ) : Prop where
  edges : (d.graph.edges.toList ++ d.rounds.flatten).Perm
    (d.base.edges.toList ++ d.rounds.flatten.map Edge.flip)
  backEdges : (d.rounds.flatten ++ d.graph.adjacency.strongComponents.backEdges).Perm
    d.base.adjacency.strongComponents.backEdges

theorem balanced_ofGraph (g : KeyedGraph κ) : (ofGraph g).Balanced := by
  have hgraph := graph_ofGraph g
  constructor
  · rw [hgraph]
    simp [ofGraph]
  · rw [hgraph]
    exact .refl _

/-- The edges chosen in a pass are edges of the graph. -/
theorem chosen_subset_edges (d : Draft κ) :
    d.graph.adjacency.strongComponents.chosen ⊆ d.graph.edges.toList := by
  intro e he
  have hback := StrongComponents.mem_backEdges_of_mem_chosen he
  exact Digraph.mem_succ_adjacency.1 (of_mem_backEdges_depthFirst hback).2.1

theorem Balanced.pass (h : d.Balanced) : d.pass.Balanced := by
  have hrounds : d.pass.rounds.flatten =
      d.rounds.flatten ++ d.graph.adjacency.strongComponents.chosen := by
    simp [Draft.pass, turn]
  have hflip := perm_foldl_flip (StrongComponents.nodup_chosen d.graph.adjacency.strongComponents)
    d.chosen_subset_edges
  rw [← d.depthFirst_pass.2.2] at hflip
  constructor
  · -- every edge is counted on both sides of the two balances
    refine List.perm_iff_count.2 fun e => ?_
    have hpass := hflip.count_eq e
    have hbefore := h.edges.count_eq e
    simp only [hrounds, List.map_append, List.count_append] at hpass hbefore ⊢
    change _ = d.base.edges.toList.count e + _
    omega
  · rw [hrounds, List.append_assoc]
    exact (d.perm_backEdges_pass.append_left _).trans h.backEdges

/-- When no cycle is left, all back edges of the given graph are traded for flipped ones. -/
theorem Balanced.perm_edges (h : d.Balanced) (hacyclic : d.graph.adjacency.Acyclic) :
    (d.graph.edges.toList ++ d.base.adjacency.strongComponents.backEdges).Perm
      (d.base.edges.toList ++ d.base.adjacency.strongComponents.backEdges.map Edge.flip) := by
  have hnil : d.graph.adjacency.strongComponents.backEdges = [] :=
    acyclic_iff_backEdges_eq_nil.1 hacyclic
  have hturned := h.backEdges
  rw [hnil, List.append_nil] at hturned
  calc (d.graph.edges.toList ++ d.base.adjacency.strongComponents.backEdges).Perm _ :=
        hturned.symm.append_left _
    List.Perm _ _ := h.edges
    List.Perm _ _ := (hturned.map Edge.flip).append_left _

/-- A run that succeeds comes to its end after a number of passes. -/
theorem exists_passes_of_settle (hr : d.settle budget = .ok r) :
    ∃ n ≤ budget, r.graph = (pass^[n] d).graph ∧ r.rounds = (pass^[n] d).rounds ∧
      r.turnedAt = Arc.turnedAt (pass^[n] d).arcs := by
  fun_induction Draft.settle budget d with
  | case1 budget d order horder =>
    obtain rfl := Except.ok.inj hr
    exact ⟨0, Nat.zero_le _, rfl, rfl, rfl⟩
  | case2 d horder => cases hr
  | case3 d horder budget ih =>
    obtain ⟨n, hn, hgraph, hrounds, hturned⟩ := ih hr
    exact ⟨n + 1, Nat.succ_le_succ hn, hgraph, hrounds, hturned⟩

theorem base_iterate_pass (n : Nat) (d : Draft κ) : (pass^[n] d).base = d.base := by
  induction n generalizing d with
  | zero => rfl
  | succ n ih => exact ih d.pass

theorem Balanced.iterate_pass (h : d.Balanced) (n : Nat) : (Draft.pass^[n] d).Balanced := by
  induction n generalizing d with
  | zero => exact h
  | succ n ih => exact ih (d := d.pass) h.pass

end Draft

/-! ## The result -/

namespace KeyedGraph

variable {g : KeyedGraph κ} {limit : Option Nat} {d : Dag κ} {e : Edge}

/-- Without a limit a graph is made acyclic. -/
theorem exists_breakCycles (g : KeyedGraph κ) : ∃ d, g.breakCycles none = .ok d := by
  have hbudget : (Draft.ofGraph g).graph.adjacency.strongComponents.backEdges.length ≤
      g.edgeCount := by
    rw [Draft.graph_ofGraph]
    exact g.length_backEdges_le
  obtain ⟨d, hd, -⟩ := Draft.exists_settle_eq_ok hbudget
  exact ⟨d, hd⟩

/-- The result is the graph after a number of passes. -/
theorem exists_passes_of_breakCycles (h : g.breakCycles limit = .ok d) :
    ∃ n, d.graph = (Draft.pass^[n] (Draft.ofGraph g)).graph := by
  obtain ⟨n, -, hgraph, -⟩ := Draft.exists_passes_of_settle h
  exact ⟨n, hgraph⟩

theorem labels_of_breakCycles (h : g.breakCycles limit = .ok d) : d.graph.labels = g.labels := by
  obtain ⟨n, hgraph⟩ := exists_passes_of_breakCycles h
  have hbase := Draft.base_iterate_pass n (Draft.ofGraph g)
  calc d.graph.labels = (Draft.pass^[n] (Draft.ofGraph g)).base.labels := by rw [hgraph]; rfl
    _ = g.labels := by rw [hbase]; rfl

/-- The result has the edges of the given graph, with all back edges turned around. -/
theorem perm_edges_of_breakCycles (h : g.breakCycles limit = .ok d) :
    (d.graph.edges.toList ++ g.adjacency.strongComponents.backEdges).Perm
      (g.edges.toList ++ g.adjacency.strongComponents.backEdges.map Edge.flip) := by
  obtain ⟨n, hgraph⟩ := exists_passes_of_breakCycles h
  have hbase := Draft.base_iterate_pass n (Draft.ofGraph g)
  have hacyclic := d.isTopological_order.acyclic
  rw [hgraph] at hacyclic
  have hperm := ((Draft.balanced_ofGraph g).iterate_pass n).perm_edges hacyclic
  rwa [hbase, ← hgraph] at hperm

/-- A back edge of the given graph is turned around in the result. -/
theorem flip_mem_edges_of_breakCycles (h : g.breakCycles limit = .ok d)
    (he : e ∈ g.adjacency.strongComponents.backEdges) : e.flip ∈ d.graph.edges.toList := by
  have hflip := List.mem_map_of_mem (f := Edge.flip) he
  have hmem := (perm_edges_of_breakCycles h).mem_iff.2 (List.mem_append_right _ hflip)
  exact (List.mem_append.1 hmem).resolve_right (flip_not_mem_backEdges he)

/-- No copy of a back edge of the given graph is left in the result. -/
theorem not_mem_edges_of_breakCycles (h : g.breakCycles limit = .ok d)
    (he : e ∈ g.adjacency.strongComponents.backEdges) : e ∉ d.graph.edges.toList := by
  intro hmem
  have hflip := flip_mem_edges_of_breakCycles h he
  -- the two edges are a cycle, which the result does not have
  have heq := d.isTopological_order.acyclic e.source e.target
    ⟨.single (Digraph.mem_succ_adjacency.2 hmem), .single (Digraph.mem_succ_adjacency.2 hflip)⟩
  exact (of_mem_backEdges_depthFirst he).1 heq

/-- An edge of the result is an edge of the given graph that is no back edge, or a flipped back
edge. -/
theorem mem_edges_iff_of_breakCycles (h : g.breakCycles limit = .ok d) :
    e ∈ d.graph.edges.toList ↔
      e ∈ g.edges.toList ∧ e ∉ g.adjacency.strongComponents.backEdges ∨
        e.flip ∈ g.adjacency.strongComponents.backEdges := by
  have hperm := (perm_edges_of_breakCycles h).mem_iff (a := e)
  rw [List.mem_append, List.mem_append, List.mem_map_of_involutive Edge.flip_flip] at hperm
  constructor
  · intro he
    have hback : e ∉ g.adjacency.strongComponents.backEdges := fun hback =>
      not_mem_edges_of_breakCycles h hback he
    exact (hperm.1 (.inl he)).imp_left fun hmem => ⟨hmem, hback⟩
  · rintro (⟨he, hback⟩ | hflip)
    · exact (hperm.2 (.inl he)).resolve_right hback
    · exact flip_mem_edges_of_breakCycles h hflip

end KeyedGraph

end FlowBubbles
