import FlowBubbles.Proofs.Checked.Components
import FlowBubbles.Proofs.Checked.Keyed
import FlowBubbles.Proofs.Checked.Order
import FlowBubbles.Proofs.Dag.Positions

/-!
# Checked passes

A checked pass keeps the positions of the turned edges in a list of their own. An edge that is taken
away moves the positions behind it down by one, none of which is the first position
(`Arc.turnedAt_remove`). Each chosen edge is still there when its turn comes, so the list holds the
positions of the turned edges all along (`Turning.turn?_ofArcs`). The graph is built anew in each
pass, and the passes come to an end (`settle?_eq_some`).
-/

namespace FlowBubbles

/-! ## The positions of turned edges -/

namespace Arc

theorem lt_length_of_mem_turnedAt {l : List Arc} {i : Nat} (h : i ∈ turnedAt l) : i < l.length := by
  obtain ⟨⟨a, j⟩, hmem, hi⟩ := List.mem_filterMap.1 h
  have hlt := (List.getElem?_eq_some_iff.1 (List.mem_zipIdx_iff_getElem?.1 hmem)).1
  obtain ⟨-, rfl⟩ : a.turned = true ∧ j = i := by simpa using hi
  exact hlt

/-- The positions are in ascending order. -/
theorem pairwise_turnedAt (l : List Arc) : (turnedAt l).Pairwise (· < ·) := by
  have hpositions : l.zipIdx.Pairwise fun x y => x.2 < y.2 := by
    rw [← List.pairwise_map, List.zipIdx_map_snd]
    exact List.pairwise_lt_range'
  rw [turnedAt, List.pairwise_filterMap]
  refine hpositions.imp fun {x y} hlt i hi j hj => ?_
  obtain ⟨-, rfl⟩ : x.1.turned = true ∧ x.2 = i := by simpa using hi
  obtain ⟨-, rfl⟩ : y.1.turned = true ∧ y.2 = j := by simpa using hj
  exact hlt

/-- Where a position moves when the edge at position `i` is taken away. -/
def movedDown (i p : Nat) : Nat := if i < p then p - 1 else p

/-- An edge is taken away, and the positions behind it move down. -/
theorem turnedAt_remove (before : List Arc) (a : Arc) (after : List Arc) :
    ((turnedAt (before ++ a :: after)).filter (· != before.length)).map (movedDown before.length) =
      turnedAt (before ++ after) := by
  have hbefore : ((turnedAt before).filter (· != before.length)).map (movedDown before.length) =
      turnedAt before := by
    have hne : ∀ p ∈ turnedAt before, (p != before.length) = true := fun p hp => by
      simpa using Nat.ne_of_lt (lt_length_of_mem_turnedAt hp)
    have hmoved : ∀ p ∈ turnedAt before, movedDown before.length p = id p := fun p hp =>
      if_neg (Nat.not_lt_of_lt (lt_length_of_mem_turnedAt hp))
    rw [List.filter_eq_self.2 hne, List.map_congr_left hmoved, List.map_id]
  have hself : ((turnedAt [a]).map (· + before.length)).filter (· != before.length) = [] := by
    refine List.filter_eq_nil_iff.2 fun p hp => ?_
    obtain ⟨i, hi, rfl⟩ := List.mem_map.1 hp
    obtain rfl : i = 0 := Nat.lt_one_iff.1 (lt_length_of_mem_turnedAt hi)
    simp
  have hafter : (((turnedAt after).map (· + 1 + before.length)).filter
      (· != before.length)).map (movedDown before.length) =
        (turnedAt after).map (· + before.length) := by
    have hne : ∀ p ∈ (turnedAt after).map (· + 1 + before.length),
        (p != before.length) = true := fun p hp => by
      obtain ⟨i, -, rfl⟩ := List.mem_map.1 hp
      simp
    rw [List.filter_eq_self.2 hne, List.map_map]
    refine List.map_congr_left fun p _ => ?_
    simp only [movedDown, Function.comp_apply]
    split <;> omega
  rw [turnedAt_append, turnedAt_append before after, List.filter_append, List.map_append, hbefore,
    ← List.singleton_append, turnedAt_append [a], List.map_append, List.filter_append, hself,
    List.nil_append, List.map_map]
  exact congrArg _ hafter

end Arc

namespace Checked

/-! ## Turning the chosen edges -/

/-- The edges in the course of a pass, and the positions of the turned ones. -/
structure Turning where
  edges : List Edge
  added : List Nat

namespace Turning

/-- Moves a position down that lies behind position `i`. -/
def moveDown? (i p : Nat) : Option Nat := if i < p then sub? p 1 else some p

/-- Takes the edge at a position away; the positions behind it move down. -/
def remove? (s : Turning) (i : Nat) : Option Turning :=
  if i < s.edges.length then do
    let added ← (s.added.filter (· != i)).mapM (moveDown? i)
    return ⟨s.edges.eraseIdx i, added⟩
  else none

/-- Takes the first copy of an edge away, if there is one, and puts the flipped edge at the end. -/
def turn? (s : Turning) (e : Edge) : Option Turning := do
  let s ← match s.edges.findIdx? (· == e) with
    | some i => s.remove? i
    | none => some s
  return ⟨s.edges ++ [e.flip], s.added ++ [s.edges.length]⟩

/-- The edges, and the positions of those that came about by turning. -/
def ofArcs (arcs : List Arc) : Turning := ⟨arcs.map Arc.edge, Arc.turnedAt arcs⟩

variable {arcs : List Arc} {e : Edge} {es : List Edge}

theorem moveDown?_eq_some (i p : Nat) : moveDown? i p = some (Arc.movedDown i p) := by
  rw [moveDown?, Arc.movedDown]
  split
  · rename_i hlt
    exact sub?_of_le (Nat.one_le_of_lt hlt)
  · rfl

theorem remove?_ofArcs (before : List Arc) (a : Arc) (after : List Arc) :
    (ofArcs (before ++ a :: after)).remove? before.length = some (ofArcs (before ++ after)) := by
  have hlt : before.length < (ofArcs (before ++ a :: after)).edges.length := by
    simp [ofArcs]
  have hedges : (ofArcs (before ++ a :: after)).edges.eraseIdx before.length =
      (ofArcs (before ++ after)).edges := by
    simp [ofArcs, List.eraseIdx_append_of_length_le]
  rw [remove?, if_pos hlt, mapM_eq_some fun p _ => moveDown?_eq_some before.length p, hedges]
  exact congrArg (fun added => some (⟨_, added⟩ : Turning)) (Arc.turnedAt_remove before a after)

/-- An edge that is there is turned around. -/
theorem turn?_ofArcs (he : e ∈ arcs.map Arc.edge) :
    (ofArcs arcs).turn? e = some (ofArcs (Arc.turn arcs e)) := by
  obtain ⟨b, hb, hbe⟩ := List.mem_map.1 he
  have hfits : (b.edge == e) = true := by simpa using hbe
  obtain ⟨a, before, after, hbefore, ha, harcs, herase⟩ :=
    List.exists_of_eraseP (p := fun b : Arc => b.edge == e) hb hfits
  have hturn : Arc.turn arcs e = (before ++ after) ++ [⟨e.flip, true⟩] := by
    rw [Arc.turn, if_pos (List.any_eq_true.2 ⟨b, hb, hfits⟩), herase]
  have hfind : (ofArcs arcs).edges.findIdx? (· == e) = some before.length := by
    have hnone : before.findIdx? ((· == e) ∘ Arc.edge) = none :=
      List.findIdx?_eq_none_iff.2 fun b hb => by simpa using hbefore b hb
    have hhead : ((· == e) ∘ Arc.edge) a = true := ha
    rw [ofArcs, List.findIdx?_map, harcs, List.findIdx?_append, hnone, List.findIdx?_cons, hhead]
    simp
  have happend : ofArcs (before ++ after ++ [⟨e.flip, true⟩]) =
      ⟨(before ++ after).map Arc.edge ++ [e.flip],
        Arc.turnedAt (before ++ after) ++ [((before ++ after).map Arc.edge).length]⟩ := by
    rw [ofArcs, Arc.turnedAt_append, List.map_append, List.length_map]
    simp [Arc.turnedAt]
  have hremove : (ofArcs arcs).remove? before.length = some (ofArcs (before ++ after)) :=
    harcs ▸ remove?_ofArcs before a after
  rw [turn?, hfind]
  simp only [hremove, Option.bind_eq_bind, Option.bind_some, hturn, happend]
  rfl

/-- The chosen edges are turned around one after the other; none of them is taken away before its
turn. -/
theorem foldlM_turn? (hnodup : es.Nodup) (hes : es ⊆ arcs.map Arc.edge) :
    es.foldlM turn? (ofArcs arcs) = some (ofArcs (es.foldl Arc.turn arcs)) := by
  refine (foldlM_eq_some (e := ofArcs)
    (P := fun rest arcs => rest.Nodup ∧ rest ⊆ arcs.map Arc.edge) (fun e rest arcs hrest => ?_)
    es arcs ⟨hnodup, hes⟩).1
  obtain ⟨hnodup, hrest⟩ := hrest
  obtain ⟨hnotmem, hnodup⟩ := List.nodup_cons.1 hnodup
  obtain ⟨he, hrest⟩ := List.cons_subset.1 hrest
  refine ⟨turn?_ofArcs he, hnodup, fun f hf => ?_⟩
  have hne : f ≠ e := fun heq => hnotmem (heq ▸ hf)
  rw [Arc.map_edge_turn he]
  exact List.mem_append_left _ ((List.mem_erase_of_ne hne).2 (hrest hf))

end Turning

/-! ## The passes -/

variable {κ : Type}

/-- A stored graph in the course of being made acyclic. -/
structure Draft (κ : Type) where
  graph : Keyed κ
  reversed : List Edge
  added : List Nat
  passes : Nat

/-- A stored graph without cycles of two or more nodes, with the rank of each node in a table. -/
structure Dag (κ : Type) where
  graph : Keyed κ
  order : List Nat
  ranks : Table Nat
  reversed : List Edge
  turnedAt : List Nat
  passes : Nat

/-- Makes one pass, or ends with a topological order or with the passes used up. -/
noncomputable def pass? (limit : Nat) (s : Draft κ) :
    Option (Draft κ ⊕ Except Error (Dag κ)) := do
  match ← topologicalOrder? s.graph.storage.view with
  | some order =>
    let ranks ← (Table.replicate order.length 0).number? order
    return .inr (.ok ⟨s.graph, order, ranks, s.reversed, s.added.mergeSort, s.passes⟩)
  | none =>
    let c ← strongComponents? s.graph.storage.view
    if limit ≤ s.passes then
      return .inr (.error (.cyclesRemain s.passes (c.components.filter (1 < ·.length)).length))
    else
      let chosen ← c.chosen?
      let turned ← chosen.foldlM Turning.turn? ⟨s.graph.storage.edges.toList, s.added⟩
      match ← s.graph.withEdges? turned.edges with
      | .error e => return .inr (.error e)
      | .ok graph => return .inl ⟨graph, s.reversed ++ chosen, turned.added, s.passes + 1⟩

/-- Makes passes until there is a topological order or their number reaches the limit. -/
noncomputable def settle? (limit : Nat) (s : Draft κ) : Option (Except Error (Dag κ)) :=
  (loop Sum.isRight (Sum.elim (pass? limit) fun r => some (.inr r)) (.inl s)).bind Sum.getRight?

/-- Makes a stored graph acyclic. Without a limit there may be as many passes as it has edges. -/
noncomputable def breakCycles? (x : Keyed κ) (limit : Option Nat) : Option (Except Error (Dag κ)) :=
  settle? (limit.getD x.storage.edges.size) ⟨x, [], [], 0⟩

variable {limit : Nat} {s s' : Draft κ} {r : Except Error (Dag κ)}

theorem settle?_of_inr (h : pass? limit s = some (.inr r)) : settle? limit s = some r :=
  Option.bind_eq_some_iff.2 ⟨.inr r, loop_of_step rfl h (loop_of_halted rfl), rfl⟩

theorem settle?_of_inl (h : pass? limit s = some (.inl s')) (hrest : settle? limit s' = some r) :
    settle? limit s = some r := by
  obtain ⟨x, hx, hr⟩ := Option.bind_eq_some_iff.1 hrest
  exact Option.bind_eq_some_iff.2 ⟨x, loop_of_step rfl h hx, hr⟩

end Checked

open Checked

section

variable {κ : Type} [DecidableEq κ]

/-- A graph in the course of being made acyclic as it is stored. -/
def Draft.stored (d : Draft κ) : Checked.Draft κ :=
  ⟨d.graph.stored, d.rounds.flatten, Arc.turnedAt d.arcs, d.rounds.length⟩

/-- An acyclic graph as it is stored. -/
def Dag.stored (d : Dag κ) : Checked.Dag κ :=
  ⟨d.graph.stored, d.order, ⟨d.order.length, d.ranks⟩, d.reversed, d.turnedAt, d.passes⟩

namespace Draft

variable {d : Draft κ} {order : List Nat}

theorem stored_ofGraph (g : KeyedGraph κ) : (ofGraph g).stored = ⟨g.stored, [], [], 0⟩ := by
  have hnone : Arc.turnedAt (ofGraph g).arcs = [] := Arc.turnedAt_map_given g.edges.toList
  rw [stored, graph_ofGraph, hnone]
  rfl

theorem topologicalOrder?_stored (d : Draft κ) :
    topologicalOrder? d.stored.graph.storage.view = some d.graph.adjacency.topologicalOrder :=
  topologicalOrder?_eq_some d.graph.shows_storage

theorem strongComponents?_stored (d : Draft κ) :
    strongComponents? d.stored.graph.storage.view =
      some (.tabled d.graph.adjacency.size d.graph.adjacency.strongComponents) :=
  strongComponents?_eq_some d.graph.shows_storage

/-- A topological order ends the passes, and each of its nodes has a cell for its rank. -/
theorem pass?_of_topologicalOrder (h : d.graph.adjacency.topologicalOrder = some order)
    (limit : Nat) :
    pass? limit d.stored =
      some (.inr (.ok (Dag.stored ⟨d.graph, order, h, d.rounds, Arc.turnedAt d.arcs⟩))) := by
  have htop := Adjacency.isTopological_of_topologicalOrder_eq_some h
  have hlt : ∀ v ∈ order, v < order.length := fun v hv => htop.length_eq ▸ htop.mem_iff.1 hv
  have hsorted : (Arc.turnedAt d.arcs).mergeSort = Arc.turnedAt d.arcs :=
    List.mergeSort_of_pairwise ((Arc.pairwise_turnedAt d.arcs).imp fun hlt => by
      simpa using Nat.le_of_lt hlt)
  rw [pass?, topologicalOrder?_stored, h]
  simp only [Option.bind_eq_bind, Option.bind_some, Table.number?_replicate hlt]
  rw [stored, hsorted]
  rfl

/-- The limit ends the passes. -/
theorem pass?_of_le (h : d.graph.adjacency.topologicalOrder = none) {limit : Nat}
    (hlimit : limit ≤ d.rounds.length) :
    pass? limit d.stored = some (.inr (.error d.stuck.error)) := by
  have hused : limit ≤ d.stored.passes := hlimit
  rw [pass?, topologicalOrder?_stored, h]
  simp only [Option.bind_eq_bind, Option.bind_some, strongComponents?_stored, hused, if_true]
  rfl

/-- The edges that are chosen are turned around, and the graph is built anew. -/
theorem pass?_of_lt (h : d.graph.adjacency.topologicalOrder = none) {limit : Nat}
    (hlimit : d.rounds.length < limit) :
    pass? limit d.stored = some (.inl d.pass.stored) := by
  have hlt : ∀ e ∈ (d.pass.arcs.map Arc.edge).toArray,
      e.source < d.graph.size ∧ e.target < d.graph.size := by
    intro e he
    obtain ⟨a, ha, rfl⟩ := List.mem_map.1 (List.mem_toArray.1 he)
    exact d.pass.arcs_lt a ha
  have hgraph : d.stored.graph.withEdges? (Turning.ofArcs d.pass.arcs).edges =
      some (.ok d.pass.graph.stored) := KeyedGraph.withEdges?_stored hlt
  have hstart : (⟨d.stored.graph.storage.edges.toList, d.stored.added⟩ : Turning) =
      .ofArcs d.arcs := rfl
  have hturned := Turning.foldlM_turn?
    (StrongComponents.nodup_chosen d.graph.adjacency.strongComponents) d.chosen_subset_edges
  have hpass : d.pass.stored = ⟨d.pass.graph.stored,
      d.stored.reversed ++ d.graph.adjacency.strongComponents.chosen,
      (Turning.ofArcs d.pass.arcs).added, d.stored.passes + 1⟩ := by
    rw [stored, length_rounds_pass, pass, turn, List.flatten_append, List.flatten_singleton]
    rfl
  have hleft : ¬limit ≤ d.stored.passes := Nat.not_le_of_lt hlimit
  rw [pass?, topologicalOrder?_stored, h, hpass]
  simp only [Option.bind_eq_bind, Option.bind_some, strongComponents?_stored, hleft, if_false,
    Components.chosen?_eq_some, hstart, hturned]
  change (d.stored.graph.withEdges? (Turning.ofArcs d.pass.arcs).edges).bind _ = _
  rw [hgraph]
  rfl

/-- The passes come to an end, with the same result. -/
theorem settle?_eq_some (d : Draft κ) (budget : Nat) :
    settle? (d.rounds.length + budget) d.stored =
      some (((d.settle budget).mapError Stuck.error).map Dag.stored) := by
  induction budget generalizing d with
  | zero =>
    cases horder : d.graph.adjacency.topologicalOrder with
    | some order =>
      rw [settle_of_topologicalOrder horder]
      exact settle?_of_inr (pass?_of_topologicalOrder horder _)
    | none =>
      rw [settle_zero horder]
      exact settle?_of_inr (pass?_of_le horder (Nat.le_refl _))
  | succ budget ih =>
    cases horder : d.graph.adjacency.topologicalOrder with
    | some order =>
      rw [settle_of_topologicalOrder horder]
      exact settle?_of_inr (pass?_of_topologicalOrder horder _)
    | none =>
      have hrest := ih d.pass
      rw [length_rounds_pass, Nat.add_right_comm] at hrest
      rw [settle_succ horder]
      exact settle?_of_inl (pass?_of_lt horder (by omega)) hrest

end Draft

/-- A stored graph is made acyclic, or the limit on the passes is used up. -/
theorem KeyedGraph.breakCycles?_eq_some (g : KeyedGraph κ) (limit : Option Nat) :
    breakCycles? g.stored limit =
      some (((g.breakCycles limit).mapError Stuck.error).map Dag.stored) := by
  have hsettle := Draft.settle?_eq_some (Draft.ofGraph g) (limit.getD g.edgeCount)
  rw [Draft.stored_ofGraph] at hsettle
  rw [breakCycles?, breakCycles, ← hsettle]
  exact congrArg (settle? · _) (Nat.zero_add _).symm

/-! ## The list of positions -/

namespace KeyedGraph

variable {g : KeyedGraph κ} {limit : Option Nat} {d : FlowBubbles.Dag κ}

/-- A graph that is made acyclic loses each edge that was turned, at its first copy and as often as
it was turned, and the flipped edges follow behind the edges that are left, in the order in which
they were turned. So the positions of the turned edges are the last ones, one for each edge that was
turned, and the list of positions that the checked passes keep up to date ends with these. It is so
after every pass: no pass takes a flipped edge away. -/
theorem breakCycles_edges (h : g.breakCycles limit = .ok d) :
    d.reversed.Subperm g.edges.toList ∧
      d.graph.edges.toList = g.edges.toList.diff d.reversed ++ d.reversed.map Edge.flip ∧
      d.turnedAt = List.range' (g.edgeCount - d.reversed.length) d.reversed.length ∧
      d.turnedAt.length = d.reversed.length ∧
      (∃ s, breakCycles? g.stored limit = some (.ok s) ∧ s.graph = d.graph.stored ∧
        s.reversed = d.reversed ∧ s.turnedAt = d.turnedAt) ∧
      ∀ n, let draft := FlowBubbles.Draft.pass^[n] (.ofGraph g)
        let turned := draft.rounds.flatten
        draft.graph.edges.toList = g.edges.toList.diff turned ++ turned.map Edge.flip ∧
          Arc.turnedAt draft.arcs = List.range' (g.edgeCount - turned.length) turned.length := by
  have hpositions := turnedAt_of_breakCycles h
  have hchecked : breakCycles? g.stored limit = some (.ok d.stored) := by
    rw [breakCycles?_eq_some, h]
    rfl
  exact ⟨subperm_reversed_of_breakCycles h, edges_of_breakCycles h, hpositions,
    by rw [hpositions, List.length_range'], ⟨d.stored, hchecked, rfl, rfl, rfl⟩, edges_iterate_pass g⟩

end KeyedGraph

end

namespace KeyedGraph

/-- Three nodes with an edge each way between any two of them. Three passes turn one edge each. -/
def threeWay : KeyedGraph String where
  labels := #["x", "y", "z"]
  edges := #[⟨0, 1⟩, ⟨0, 2⟩, ⟨1, 0⟩, ⟨1, 2⟩, ⟨2, 0⟩, ⟨2, 1⟩]
  edges_lt := by decide
  nodup := by decide

theorem edges_threeWay :
    ∃ d, threeWay.breakCycles (some 3) = .ok d ∧ d.reversed = [⟨2, 1⟩, ⟨2, 0⟩, ⟨1, 0⟩] ∧
      d.graph.edges.toList = [⟨0, 1⟩, ⟨0, 2⟩, ⟨1, 2⟩, ⟨1, 2⟩, ⟨0, 2⟩, ⟨0, 1⟩] ∧
      d.turnedAt = [3, 4, 5] := by
  have hread : (threeWay.breakCycles (some 3)).toOption.map Dag.reversed =
      some [⟨2, 1⟩, ⟨2, 0⟩, ⟨1, 0⟩] := by decide
  cases hd : threeWay.breakCycles (some 3) with
  | error s => simp [hd, Except.toOption] at hread
  | ok d =>
    have hreversed : d.reversed = [⟨2, 1⟩, ⟨2, 0⟩, ⟨1, 0⟩] := by
      rw [hd] at hread
      exact Option.some.inj hread
    obtain ⟨-, hedges, hturnedAt, -⟩ := breakCycles_edges hd
    rw [hreversed] at hedges hturnedAt
    exact ⟨d, rfl, hreversed, hedges, hturnedAt⟩

end KeyedGraph

end FlowBubbles
