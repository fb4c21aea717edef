import FlowBubbles.Proofs.Cycles

/-!
# Where the turned edges stand

A pass takes edges away in front and puts flipped ones at the end. An edge that is chosen is never a
flipped one (`Draft.Balanced.chosen_disjoint_flipped`), so what was put at the end stays there. After
any number of passes the edges are therefore those of the given graph that are left, in their order,
and behind them the flipped ones in the order in which they were turned
(`KeyedGraph.edges_iterate_pass`). The positions of the turned edges are the last ones.
-/

namespace FlowBubbles

open DepthFirst

variable {κ : Type}

/-! ## Kept and turned edges -/

namespace Arc

theorem turnedAt_append (l l' : List Arc) :
    turnedAt (l ++ l') = turnedAt l ++ (turnedAt l').map (· + l.length) := by
  have hshift : l'.zipIdx l.length = l'.zipIdx.map fun p => (p.1, p.2 + l.length) := by
    rw [List.zipIdx_eq_map_add]
    simp [Nat.add_comm]
  rw [turnedAt, List.zipIdx_append, List.filterMap_append, Nat.zero_add, hshift, List.filterMap_map,
    turnedAt, turnedAt, List.map_filterMap]
  refine congrArg _ (List.filterMap_congr fun p _ => ?_)
  cases h : p.1.turned <;> simp [h]

/-- No edge was turned at first. -/
theorem turnedAt_map_given (es : List Edge) : turnedAt (es.map (⟨·, false⟩)) = [] := by
  refine List.filterMap_eq_nil_iff.2 ?_
  rintro ⟨a, i⟩ hp
  obtain ⟨e, -, rfl⟩ := List.mem_map.1 (List.fst_mem_of_mem_zipIdx hp)
  rfl

/-- Edges as they were given, and edges that were turned around behind them. -/
def laid (kept turned : List Edge) : List Arc :=
  kept.map (⟨·, false⟩) ++ turned.map fun e => ⟨e.flip, true⟩

variable {kept turned es : List Edge} {e : Edge}

theorem map_edge_laid (kept turned : List Edge) :
    (laid kept turned).map edge = kept ++ turned.map Edge.flip := by
  simp [laid, Function.comp_def]

/-- Turning a kept edge moves it behind the turned ones. -/
theorem turn_laid (he : e ∈ kept) :
    turn (laid kept turned) e = laid (kept.erase e) (turned ++ [e]) := by
  have hkept : (⟨e, false⟩ : Arc) ∈ kept.map (⟨·, false⟩) := List.mem_map_of_mem he
  have hfits : ((⟨e, false⟩ : Arc).edge == e) = true := beq_self_eq_true e
  have hany : (laid kept turned).any (·.edge == e) = true :=
    List.any_eq_true.2 ⟨_, List.mem_append_left _ hkept, hfits⟩
  have herase : (kept.map (⟨·, false⟩ : Edge → Arc)).eraseP (·.edge == e) =
      (kept.erase e).map (⟨·, false⟩) := by
    have hpred : ((·.edge == e) ∘ (⟨·, false⟩ : Edge → Arc)) = (e == ·) := funext fun _ => BEq.comm
    rw [List.eraseP_map, hpred, ← List.erase_eq_eraseP]
  rw [turn, if_pos hany, laid, List.eraseP_append_left (p := (·.edge == e)) hfits _ hkept, herase,
    laid, List.map_append, List.append_assoc]
  rfl

/-- Kept edges are turned one after the other, each as often as it is listed. -/
theorem foldl_turn_laid (hes : es.Subperm kept) :
    es.foldl turn (laid kept turned) = laid (kept.diff es) (turned ++ es) := by
  induction es generalizing kept turned with
  | nil => simp
  | cons e es ih =>
    have he : e ∈ kept := hes.subset List.mem_cons_self
    have hrest : es.Subperm (kept.erase e) := by
      simpa using hes.erase e
    rw [List.foldl_cons, turn_laid he, ih hrest, List.diff_cons, List.append_assoc,
      List.singleton_append]

/-- The turned edges are the last ones. -/
theorem turnedAt_laid (kept turned : List Edge) :
    turnedAt (laid kept turned) = List.range' kept.length turned.length := by
  have hturned : turnedAt (turned.map fun e => ⟨e.flip, true⟩) = List.range' 0 turned.length := by
    have hsome : ∀ p ∈ (turned.map fun e => (⟨e.flip, true⟩ : Arc)).zipIdx,
        (if p.1.turned then some p.2 else none) = some p.2 := by
      rintro ⟨a, i⟩ hp
      obtain ⟨e, -, rfl⟩ := List.mem_map.1 (List.fst_mem_of_mem_zipIdx hp)
      rfl
    rw [turnedAt, List.filterMap_congr hsome, List.filterMap_eq_map', List.zipIdx_map_snd,
      List.length_map]
  rw [laid, turnedAt_append, turnedAt_map_given, hturned, List.nil_append, List.length_map]
  simp [List.range'_eq_map_range, Nat.add_comm]

end Arc

/-! ## After any number of passes -/

namespace Draft

variable {d : Draft κ}

/-- No edge that is chosen in a pass is one that was flipped before: back edges do not run both
ways. -/
theorem Balanced.chosen_disjoint_flipped (h : d.Balanced) :
    d.graph.adjacency.strongComponents.chosen.Disjoint (d.rounds.flatten.map Edge.flip) := by
  intro e he hflip
  obtain ⟨f, hf, rfl⟩ := List.mem_map.1 hflip
  have hback := StrongComponents.mem_backEdges_of_mem_chosen he
  have hfback : f ∈ d.base.adjacency.strongComponents.backEdges :=
    h.backEdges.subset (List.mem_append_left _ hf)
  exact DepthFirst.flip_not_mem_backEdges hfback (h.backEdges.subset (List.mem_append_right _ hback))

/-- What holds after any number of passes: the edges that were turned are edges of the given graph,
and the other ones stand in front of their flipped edges. -/
structure Laid (d : Draft κ) : Prop where
  subperm : d.rounds.flatten.Subperm d.base.edges.toList
  arcs : d.arcs = Arc.laid (d.base.edges.toList.diff d.rounds.flatten) d.rounds.flatten

theorem Laid.edges (h : d.Laid) : d.graph.edges.toList =
    d.base.edges.toList.diff d.rounds.flatten ++ d.rounds.flatten.map Edge.flip := by
  rw [edges_graph, h.arcs, Arc.map_edge_laid]

theorem Laid.perm (h : d.Laid) :
    (d.rounds.flatten ++ d.base.edges.toList.diff d.rounds.flatten).Perm d.base.edges.toList :=
  List.subperm_append_diff_self_of_count_le (List.subperm_ext_iff.1 h.subperm)

theorem Laid.turnedAt (h : d.Laid) : Arc.turnedAt d.arcs =
    List.range' (d.base.edgeCount - d.rounds.flatten.length) d.rounds.flatten.length := by
  have hsum := h.perm.length_eq
  rw [List.length_append] at hsum
  rw [h.arcs, Arc.turnedAt_laid, Nat.eq_sub_of_add_eq' hsum]
  rfl

theorem Laid.pass (h : d.Laid) (hbalanced : d.Balanced) : d.pass.Laid := by
  -- the chosen edges are found among those that were not turned before
  have hchosen : d.graph.adjacency.strongComponents.chosen.Subperm
      (d.base.edges.toList.diff d.rounds.flatten) := by
    refine List.subperm_of_subset (StrongComponents.nodup_chosen _) fun e he => ?_
    have hmem := d.chosen_subset_edges he
    rw [h.edges] at hmem
    exact (List.mem_append.1 hmem).resolve_right (hbalanced.chosen_disjoint_flipped he)
  have hrounds : d.pass.rounds.flatten =
      d.rounds.flatten ++ d.graph.adjacency.strongComponents.chosen := by
    simp [Draft.pass, turn]
  constructor
  · rw [hrounds]
    exact ((List.subperm_append_left _).2 hchosen).trans h.perm.subperm
  · have harcs : d.pass.arcs = d.graph.adjacency.strongComponents.chosen.foldl Arc.turn d.arcs := rfl
    rw [harcs, h.arcs, Arc.foldl_turn_laid hchosen, hrounds, List.diff_append]
    rfl

theorem laid_ofGraph (g : KeyedGraph κ) : (ofGraph g).Laid := by
  constructor
  · exact List.nil_subperm
  · simp [ofGraph, Arc.laid]

/-- Passes take edges of the given graph away in front, and put them at the end, flipped. -/
theorem laid_iterate_pass (g : KeyedGraph κ) (n : Nat) : (pass^[n] (ofGraph g)).Laid := by
  induction n with
  | zero => exact laid_ofGraph g
  | succ n ih =>
    rw [Function.iterate_succ_apply']
    exact ih.pass ((balanced_ofGraph g).iterate_pass n)

end Draft

/-! ## The result -/

namespace KeyedGraph

variable {g : KeyedGraph κ} {limit : Option Nat} {d : Dag κ}

/-- The edges after any number of passes, and the positions of the turned ones. -/
theorem edges_iterate_pass (g : KeyedGraph κ) (n : Nat) :
    let draft := Draft.pass^[n] (Draft.ofGraph g)
    let turned := draft.rounds.flatten
    draft.graph.edges.toList = g.edges.toList.diff turned ++ turned.map Edge.flip ∧
      Arc.turnedAt draft.arcs = List.range' (g.edgeCount - turned.length) turned.length := by
  have hlaid := Draft.laid_iterate_pass g n
  have hedges := hlaid.edges
  have hturnedAt := hlaid.turnedAt
  rw [Draft.base_iterate_pass] at hedges hturnedAt
  exact ⟨hedges, hturnedAt⟩

/-- The turned edges are edges of the given graph. -/
theorem subperm_reversed_of_breakCycles (h : g.breakCycles limit = .ok d) :
    d.reversed.Subperm g.edges.toList := by
  obtain ⟨n, -, -, hrounds, -⟩ := Draft.exists_passes_of_settle h
  have hsubperm := (Draft.laid_iterate_pass g n).subperm
  rw [Draft.base_iterate_pass] at hsubperm
  rw [Dag.reversed, hrounds]
  exact hsubperm

/-- The turned edges are taken away, and the flipped ones follow behind the edges that are left. -/
theorem edges_of_breakCycles (h : g.breakCycles limit = .ok d) :
    d.graph.edges.toList = g.edges.toList.diff d.reversed ++ d.reversed.map Edge.flip := by
  obtain ⟨n, -, hgraph, hrounds, -⟩ := Draft.exists_passes_of_settle h
  rw [hgraph, Dag.reversed, hrounds]
  exact (edges_iterate_pass g n).1

/-- The positions of the turned edges are the last ones. -/
theorem turnedAt_of_breakCycles (h : g.breakCycles limit = .ok d) :
    d.turnedAt = List.range' (g.edgeCount - d.reversed.length) d.reversed.length := by
  obtain ⟨n, -, -, hrounds, hturnedAt⟩ := Draft.exists_passes_of_settle h
  rw [hturnedAt, Dag.reversed, hrounds]
  exact (edges_iterate_pass g n).2

end KeyedGraph

end FlowBubbles
