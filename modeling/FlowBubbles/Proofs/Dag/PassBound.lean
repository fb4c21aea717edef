import FlowBubbles.Proofs.Dag.Choice
import FlowBubbles.Proofs.Dag.Limit

/-!
# How many passes are needed

After a pass a node reaches nothing that it did not reach before, so that components fall apart but
never grow together. What was a component of the given graph stays a union of components, and as
long as a back edge is left inside it, a pass turns one of those. All components lose back edges at
the same time, so that the number of passes is bounded by the component with the most of them:
`KeyedGraph.breakCycles_passes_le`.
-/

namespace FlowBubbles

open DepthFirst

/-- The greatest number of back edges inside one component, which is zero if there are none. -/
def StrongComponents.mostBackEdges (s : StrongComponents) : Nat :=
  (s.components.map fun c => (s.backEdgesWithin c).length).max?.getD 0

theorem StrongComponents.length_backEdgesWithin_le {s : StrongComponents} {c : List Nat}
    (hc : c ∈ s.components) : (s.backEdgesWithin c).length ≤ s.mostBackEdges :=
  List.le_max?_getD_of_mem (List.mem_map_of_mem hc)

/-- Whether the nodes of `c` make up whole components. -/
def Adjacency.Saturated (a : Adjacency) (c : List Nat) : Prop :=
  ∀ x ∈ c, ∀ y, a.Mutual x y → y ∈ c

theorem Adjacency.saturated_of_mem_components {a : Adjacency} {c : List Nat}
    (hc : c ∈ a.strongComponents.components) : a.Saturated c := fun x hx y hxy =>
  ((StrongComponents.settled a).mem_iff c hc x hx y).2 hxy

/-- If back edges are left inside whole components, one of them is chosen. -/
theorem Adjacency.Saturated.exists_mem_chosen {a : Adjacency} {c : List Nat} (hc : a.Saturated c)
    (hne : a.strongComponents.backEdgesWithin c ≠ []) :
    ∃ f ∈ a.strongComponents.chosen, f.source ∈ c ∧ f.target ∈ c := by
  obtain ⟨e, he⟩ := List.exists_mem_of_ne_nil _ hne
  obtain ⟨he, hsource, -⟩ := StrongComponents.mem_backEdgesWithin.1 he
  obtain ⟨c', hc', hlen, hsource', -⟩ := StrongComponents.exists_component_of_mem_backEdges he
  -- the component of the back edge is one of those that make up `c`
  have hsub : ∀ x ∈ c', x ∈ c := fun x hx => hc _ hsource x
    (((StrongComponents.settled a).mem_iff c' hc' _ hsource' x).1 hx)
  obtain ⟨f, hf, hwithin⟩ := StrongComponents.exists_mem_chosen_within hc' hlen
  obtain ⟨-, hs, ht⟩ := StrongComponents.mem_backEdgesWithin.1 hwithin
  exact ⟨f, hf, hsub _ hs, hsub _ ht⟩

variable {κ : Type}

namespace Draft

variable {d : Draft κ} {r : Dag κ} {budget : Nat} {c : List Nat} {x y : Nat}

/-! ## Components fall apart -/

/-- After a pass a node reaches nothing new. -/
theorem reaches_of_reaches_pass (h : d.pass.graph.adjacency.Reaches x y) :
    d.graph.adjacency.Reaches x y := by
  have hperm := perm_foldl_flip (StrongComponents.nodup_chosen d.graph.adjacency.strongComponents)
    d.chosen_subset_edges
  rw [← d.depthFirst_pass.2.2] at hperm
  induction h with
  | refl => exact .refl x
  | @tail y z _ hedge ih =>
    have hmem := Digraph.mem_succ_adjacency.1 hedge
    rcases List.mem_append.1 (hperm.mem_iff.1 (List.mem_append_left _ hmem)) with hold | hflip
    · exact ih.tail (Digraph.mem_succ_adjacency.2 hold)
    · -- what a flipped edge joins was joined by a path before
      rw [List.mem_map_of_involutive Edge.flip_flip] at hflip
      exact ih.trans (reaches_of_mem_backEdges_depthFirst
        (StrongComponents.mem_backEdges_of_mem_chosen hflip))

theorem mutual_of_mutual_pass (h : d.pass.graph.adjacency.Mutual x y) :
    d.graph.adjacency.Mutual x y :=
  ⟨reaches_of_reaches_pass h.1, reaches_of_reaches_pass h.2⟩

theorem size_adjacency_pass (d : Draft κ) :
    d.pass.graph.adjacency.size = d.graph.adjacency.size := by
  rw [Digraph.size_adjacency, Digraph.size_adjacency]
  rfl

/-- Every component after a pass is a part of one before it. -/
theorem exists_component_of_mem_pass
    (hc : c ∈ d.pass.graph.adjacency.strongComponents.components) :
    ∃ c' ∈ d.graph.adjacency.strongComponents.components, c ⊆ c' := by
  have hsettled := StrongComponents.settled d.pass.graph.adjacency
  obtain ⟨x, hx⟩ := List.exists_mem_of_ne_nil c (hsettled.ne_nil c hc)
  have hnode := StrongComponents.mem_components_iff.1 (List.mem_flatten_of_mem hc hx)
  rw [size_adjacency_pass] at hnode
  obtain ⟨c', hc', hx'⟩ := List.mem_flatten.1 (StrongComponents.mem_components_iff.2 hnode)
  refine ⟨c', hc', fun y hy => ?_⟩
  exact Adjacency.saturated_of_mem_components hc' x hx' y
    (mutual_of_mutual_pass ((hsettled.mem_iff c hc x hx y).1 hy))

/-! ## Back edges are used up -/

/-- The back edges inside `c` are those that the pass turns and those that it leaves. -/
theorem countP_chosen_add_length_backEdgesWithin (d : Draft κ) (c : List Nat) :
    d.graph.adjacency.strongComponents.chosen.countP (fun e => e.source ∈ c ∧ e.target ∈ c) +
        (d.pass.graph.adjacency.strongComponents.backEdgesWithin c).length =
      (d.graph.adjacency.strongComponents.backEdgesWithin c).length := by
  rw [StrongComponents.backEdgesWithin, StrongComponents.backEdgesWithin,
    ← List.countP_eq_length_filter, ← List.countP_eq_length_filter, ← List.countP_append]
  exact d.perm_backEdges_pass.countP_eq _

/-- Whole components lose a back edge inside them in every pass, as long as they have one. -/
theorem length_backEdgesWithin_pass (hc : d.graph.adjacency.Saturated c) :
    (d.pass.graph.adjacency.strongComponents.backEdgesWithin c).length ≤
      (d.graph.adjacency.strongComponents.backEdgesWithin c).length - 1 := by
  have hlength := d.countP_chosen_add_length_backEdgesWithin c
  by_cases hnil : d.graph.adjacency.strongComponents.backEdgesWithin c = []
  · rw [hnil] at hlength ⊢
    exact Nat.le_of_add_left_le (Nat.le_of_eq hlength)
  · obtain ⟨f, hf, hends⟩ := hc.exists_mem_chosen hnil
    have hpos : 0 < d.graph.adjacency.strongComponents.chosen.countP
        fun e => e.source ∈ c ∧ e.target ∈ c :=
      List.countP_pos_iff.2 ⟨f, hf, decide_eq_true hends⟩
    omega

theorem saturated_pass (hc : d.graph.adjacency.Saturated c) :
    d.pass.graph.adjacency.Saturated c :=
  fun x hx y hxy => hc x hx y (mutual_of_mutual_pass hxy)

theorem length_backEdgesWithin_iterate_pass (hc : d.graph.adjacency.Saturated c) (n : Nat) :
    ((pass^[n] d).graph.adjacency.strongComponents.backEdgesWithin c).length ≤
      (d.graph.adjacency.strongComponents.backEdgesWithin c).length - n := by
  induction n generalizing d with
  | zero => exact Nat.le_refl _
  | succ n ih =>
    have hfirst := length_backEdgesWithin_pass hc
    have hrest := ih (d := d.pass) (saturated_pass hc)
    rw [Function.iterate_succ_apply]
    omega

theorem backEdges_iterate_pass_subset (n : Nat) (d : Draft κ) :
    (pass^[n] d).graph.adjacency.strongComponents.backEdges ⊆
      d.graph.adjacency.strongComponents.backEdges := by
  induction n generalizing d with
  | zero => exact List.Subset.refl _
  | succ n ih =>
    have hfirst := List.diff_subset d.graph.adjacency.strongComponents.backEdges
      d.graph.adjacency.strongComponents.chosen
    rw [← d.backEdges_pass] at hfirst
    exact List.Subset.trans (ih d.pass) hfirst

/-- As many passes as some component has back edges inside it leave no cycle. -/
theorem acyclic_iterate_pass {n : Nat}
    (hn : d.graph.adjacency.strongComponents.mostBackEdges ≤ n) :
    (pass^[n] d).graph.adjacency.Acyclic := by
  refine acyclic_iff_backEdges_eq_nil.2 (List.eq_nil_iff_forall_not_mem.2 fun e he => ?_)
  change e ∈ (pass^[n] d).graph.adjacency.strongComponents.backEdges at he
  -- a back edge that is left was one of the given graph, in a component that has used up its own
  obtain ⟨c, hc, -, hends⟩ :=
    StrongComponents.exists_component_of_mem_backEdges (backEdges_iterate_pass_subset n d he)
  have hpos := List.length_pos_of_mem (StrongComponents.mem_backEdgesWithin.2 ⟨he, hends⟩)
  have hleft :=
    length_backEdgesWithin_iterate_pass (Adjacency.saturated_of_mem_components hc) n
  have hmost := StrongComponents.length_backEdgesWithin_le hc
  omega

theorem passes_le (h : d.settle budget = .ok r) :
    r.passes ≤ d.rounds.length + d.graph.adjacency.strongComponents.mostBackEdges := by
  by_contra hlt
  exact not_acyclic_of_lt_passes h (Nat.lt_of_not_le hlt) (acyclic_iterate_pass (Nat.le_refl _))

end Draft

namespace KeyedGraph

/-- However many cyclic components a graph has, there are no more passes than the component with the
most back edges has inside it, and every limit that covers this number suffices. The result is the
graph after these passes. No pass joins components: each component after it is a part of one before
it. -/
theorem breakCycles_passes_le (g : KeyedGraph κ) :
    let most := g.adjacency.strongComponents.mostBackEdges
    (∀ limit d, g.breakCycles limit = .ok d → d.passes ≤ most ∧
        d.graph = (Draft.pass^[d.passes] (Draft.ofGraph g)).graph) ∧
      (∀ limit, most ≤ limit → ∃ d, g.breakCycles (some limit) = .ok d) ∧
      ∀ n,
        let before := (Draft.pass^[n] (Draft.ofGraph g)).graph.adjacency.strongComponents
        let after := (Draft.pass^[n + 1] (Draft.ofGraph g)).graph.adjacency.strongComponents
        ∀ c ∈ after.components, ∃ c' ∈ before.components, c ⊆ c' := by
  have hpasses : ∀ limit d, g.breakCycles limit = .ok d →
      d.passes ≤ g.adjacency.strongComponents.mostBackEdges := by
    intro limit d h
    have hle := Draft.passes_le h
    rwa [Draft.graph_ofGraph, show (Draft.ofGraph g).rounds.length = 0 from rfl,
      Nat.zero_add] at hle
  refine ⟨fun limit d h => ⟨hpasses limit d h, graph_eq_iterate_pass h⟩, fun limit hlimit => ?_,
    fun n c hc => ?_⟩
  · obtain ⟨d, h⟩ := g.exists_breakCycles
    rw [breakCycles_some_eq h, if_pos ((hpasses none d h).trans hlimit)]
    exact ⟨d, rfl⟩
  · rw [Function.iterate_succ_apply'] at hc
    exact Draft.exists_component_of_mem_pass hc

end KeyedGraph

end FlowBubbles
