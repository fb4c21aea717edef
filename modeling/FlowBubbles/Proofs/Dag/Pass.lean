import FlowBubbles.Dag.CycleBreaking
import FlowBubbles.Proofs.DepthFirst.Turning
import Mathlib.Data.List.Nodup

/-!
# What a pass does to the depth-first search

A pass turns a list of back edges around, no two of them equal. The main statement is
`Draft.depthFirst_pass`: the discovery of the nodes stays as it is, and the back edges that were
turned are missing from the list of back edges.
-/

namespace FlowBubbles

open DepthFirst

variable {κ : Type} {u v x : Nat} {e : Edge}

/-! ## Adjacency after one turn -/

theorem map_target_filter_erase (es : List Edge) (e : Edge) (x : Nat) :
    ((es.erase e).filter (·.source == x)).map Edge.target =
      if e.source = x then ((es.filter (·.source == x)).map Edge.target).erase e.target
      else (es.filter (·.source == x)).map Edge.target := by
  induction es with
  | nil => simp
  | cons f es ih =>
    by_cases hf : f = e
    · subst hf
      by_cases hx : f.source = x <;> simp [hx]
    · rw [List.erase_cons_tail (by simpa using hf)]
      by_cases hx : f.source = x
      · have hne : e.source = x → f.target ≠ e.target := fun h ht =>
          hf (by cases f; cases e; simp_all)
        by_cases he : e.source = x
        · simp [hx, he, ih, List.erase_cons_tail, hne he]
        · simp [hx, he, ih]
      · simp [hx, ih]

theorem Digraph.turns {g g' : Digraph κ} (hsize : g'.size = g.size) (hne : u ≠ v)
    (hedges : g'.edges.toList = g.edges.toList.erase ⟨u, v⟩ ++ [⟨v, u⟩]) :
    Turns g.adjacency g'.adjacency u v := by
  have hsucc : ∀ x, g'.adjacency.succ x =
      (if u = x then (g.adjacency.succ x).erase v else g.adjacency.succ x) ++
        if v = x then [u] else [] := by
    intro x
    rw [succ_adjacency, succ_adjacency, successors, successors, hedges, List.filter_append,
      List.map_append, map_target_filter_erase]
    by_cases hx : v = x <;> simp [hx]
  refine ⟨hsize, ?_, ?_, ?_⟩
  · simp [hsucc, Ne.symm hne]
  · simp [hsucc, hne]
  · intro x hu hv
    simp [hsucc, Ne.symm hu, Ne.symm hv]

/-- The first copy of an edge is taken away and the flipped edge is put at the end. -/
theorem Arc.map_edge_turn {arcs : List Arc} (h : e ∈ arcs.map Arc.edge) :
    (turn arcs e).map Arc.edge = (arcs.map Arc.edge).erase e ++ [e.flip] := by
  have hany : arcs.any (·.edge == e) = true := by
    obtain ⟨b, hb, rfl⟩ := List.mem_map.1 h
    exact List.any_eq_true.2 ⟨b, hb, by simp⟩
  have herase : (arcs.eraseP (·.edge == e)).map Arc.edge = (arcs.map Arc.edge).erase e := by
    have hpred : (fun b : Arc => b.edge == e) = (fun b => e == b) ∘ Arc.edge :=
      funext fun b => BEq.comm
    rw [List.erase_eq_eraseP, List.eraseP_map, hpred]
  rw [turn, if_pos hany, List.map_append, herase]
  rfl

/-! ## Turning several back edges -/

namespace Draft

variable {d d' : Draft κ} {es : List Edge}

theorem edges_graph (d : Draft κ) : d.graph.edges.toList = d.arcs.map Arc.edge := rfl

theorem graph_eq (hbase : d'.base = d.base) (harcs : d'.arcs = d.arcs) : d'.graph = d.graph := by
  cases d
  cases d'
  simp only at hbase harcs
  subst hbase harcs
  rfl

/-- Back edges, no two of them equal, are turned around one after the other: nothing changes about
what is discovered, and they are taken out of the list of back edges. -/
theorem depthFirst_of_turns (hnodup : es.Nodup) (hbase : d'.base = d.base)
    (harcs : d'.arcs = es.foldl Arc.turn d.arcs)
    (hsub : ∀ e ∈ es, e ∈ backEdges d.graph.adjacency.depthFirst) :
    discovered d'.graph.adjacency.depthFirst = discovered d.graph.adjacency.depthFirst ∧
      backEdges d'.graph.adjacency.depthFirst =
        (backEdges d.graph.adjacency.depthFirst).diff es ∧
      d'.graph.edges.toList =
        es.foldl (fun edges e => edges.erase e ++ [e.flip]) d.graph.edges.toList := by
  induction es generalizing d with
  | nil =>
    rw [graph_eq hbase harcs]
    exact ⟨rfl, rfl, rfl⟩
  | cons e es ih =>
    rw [List.nodup_cons] at hnodup
    have he := hsub e List.mem_cons_self
    obtain ⟨hne, hmem, -⟩ := of_mem_backEdges_depthFirst he
    have hedges : (d.turn [e]).graph.edges.toList = d.graph.edges.toList.erase e ++ [e.flip] :=
      Arc.map_edge_turn (Digraph.mem_succ_adjacency.1 hmem)
    have hturns : Turns d.graph.adjacency (d.turn [e]).graph.adjacency e.source e.target :=
      Digraph.turns rfl hne hedges
    obtain ⟨hdisc, hback⟩ := hturns.depthFirst he
    obtain ⟨hdisc', hback', hedges'⟩ := ih (d := d.turn [e]) hnodup.2 hbase harcs fun f hf => by
      -- the other edges are still back edges, as they differ from `e`
      have hfe : f ≠ e := fun h => hnodup.1 (h ▸ hf)
      rw [hback]
      exact (List.mem_erase_of_ne hfe).2 (hsub f (List.mem_cons_of_mem _ hf))
    refine ⟨hdisc'.trans hdisc, ?_, ?_⟩
    · rw [hback', hback, List.diff_cons]
    · rw [hedges', hedges, List.foldl_cons]

end Draft

/-! ## The chosen edges -/

namespace StrongComponents

variable {s : StrongComponents} {es : List Edge}

theorem mem_of_preferred_eq_some (h : s.preferred es = some e) : e ∈ es := by
  have hall : ∀ e, s.preferred es = some e → e ∈ es := by
    rw [preferred]
    refine List.foldlRecOn (motive := fun best => ∀ e, best = some e → e ∈ es) es _ ?_
      fun best hbest f hf e he => ?_
    · simp
    · split at he
      · exact Option.some.inj he ▸ hf
      · split at he
        · exact Option.some.inj he ▸ hf
        · exact hbest e he
  exact hall e h

theorem preferred_ne_none (h : es ≠ []) : s.preferred es ≠ none := by
  cases es with
  | nil => exact absurd rfl h
  | cons e es =>
    rw [preferred, List.foldl_cons]
    refine List.foldlRecOn (motive := fun best => best ≠ none) es _ ?_ fun best hbest f _ => ?_
    · simp
    · split
      · simp
      · split <;> simp

theorem mem_chosen :
    e ∈ s.chosen ↔ ∃ i c, s.components[i]? = some c ∧ 1 < c.length ∧
      s.preferred (s.backEdges.filter (s.componentOf.get ·.source == i)) = some e := by
  simp only [chosen, List.mem_filterMap, Prod.exists, List.mem_zipIdx_iff_getElem?]
  constructor
  · rintro ⟨c, i, hc, he⟩
    split at he
    · exact ⟨i, c, hc, ‹_›, he⟩
    · cases he
  · rintro ⟨i, c, hc, hlen, he⟩
    exact ⟨c, i, hc, by rw [if_pos hlen, he]⟩

/-- Chosen edges are back edges. -/
theorem mem_backEdges_of_mem_chosen (h : e ∈ s.chosen) : e ∈ s.backEdges := by
  obtain ⟨i, c, -, -, he⟩ := mem_chosen.1 h
  exact (List.mem_filter.1 (mem_of_preferred_eq_some he)).1

/-- The edges of a pass lie in different components. -/
theorem nodup_chosen (s : StrongComponents) : s.chosen.Nodup := by
  rw [chosen, List.Nodup, List.pairwise_filterMap]
  have hpositions : s.components.zipIdx.Pairwise fun x y => x.2 ≠ y.2 := by
    rw [← List.pairwise_map, List.zipIdx_map_snd]
    exact List.nodup_range'
  -- an edge that is chosen for two components would start in both
  refine hpositions.imp ?_
  rintro ⟨c, i⟩ ⟨c', i'⟩ hi e he e' he' rfl
  rw [Option.ite_none_right_eq_some] at he he'
  have hhome := (List.mem_filter.1 (mem_of_preferred_eq_some he.2)).2
  have hhome' := (List.mem_filter.1 (mem_of_preferred_eq_some he'.2)).2
  simp only [beq_iff_eq] at hhome hhome'
  exact hi (hhome.symm.trans hhome')

end StrongComponents

/-! ## One pass -/

namespace Draft

/-- A pass keeps the discovery, takes the chosen edges out of the list of back edges, and turns
them around in the list of edges. -/
theorem depthFirst_pass (d : Draft κ) :
    discovered d.pass.graph.adjacency.depthFirst = discovered d.graph.adjacency.depthFirst ∧
      backEdges d.pass.graph.adjacency.depthFirst =
        (backEdges d.graph.adjacency.depthFirst).diff
          d.graph.adjacency.strongComponents.chosen ∧
      d.pass.graph.edges.toList =
        d.graph.adjacency.strongComponents.chosen.foldl
          (fun edges e => edges.erase e ++ [e.flip]) d.graph.edges.toList :=
  depthFirst_of_turns (StrongComponents.nodup_chosen _) rfl rfl fun _ he =>
    StrongComponents.mem_backEdges_of_mem_chosen he

end Draft

end FlowBubbles
