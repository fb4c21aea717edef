import FlowBubbles.Proofs.Bubble
import FlowBubbles.Proofs.Dag.Positions
import FlowBubbles.Proofs.Dot.Drawn

/-!
# The drawing of an acyclic graph

Turned edges are marked by their positions. As these are the last ones, the drawing shows the given
edges that were not turned, plain, and behind them the turned ones, marked
(`Dag.drawnEdges_of_breakCycles`). A flipped edge may run beside given ones. These were not turned,
since back edges do not run both ways (`KeyedGraph.flip_notMem_reversed`), so all of them are drawn
plain.
-/

namespace FlowBubbles

open Dot

/-! ## Edges by position -/

section

variable {α β : Type} {test : Nat → Bool} {b : Bool}

/-- Values that depend on positions only through a test that has the same answer at all of them. -/
theorem map_zipIdx_of_test {l : List α} {k : Nat}
    (h : ∀ i, k ≤ i → i < k + l.length → test i = b) (f : α → Bool → β) :
    ((l.zipIdx k).map fun (a, i) => f a (test i)) = l.map (f · b) := by
  induction l generalizing k with
  | nil => rfl
  | cons a l ih =>
    rw [List.length_cons] at h
    have hfirst : test k = b := h k (Nat.le_refl k) (by omega)
    have hrest := ih (k := k + 1) fun i hle hlt => h i (by omega) (by omega)
    rw [List.zipIdx_cons, List.map_cons, List.map_cons, hrest]
    exact congrArg (f a · :: _) hfirst

/-- A test for the last positions tells the second of two lists from the first. -/
theorem map_zipIdx_append_contains (l l' : List α) (f : α → Bool → β) :
    ((l ++ l').zipIdx.map fun (a, i) => f a ((List.range' l.length l'.length).contains i)) =
      l.map (f · false) ++ l'.map (f · true) := by
  have hfirst : ∀ i, 0 ≤ i → i < 0 + l.length →
      (List.range' l.length l'.length).contains i = false := by
    intro i _ hlt
    simp only [List.contains_eq_mem, decide_eq_false_iff_not, List.mem_range'_1]
    omega
  have hlast : ∀ i, 0 + l.length ≤ i → i < 0 + l.length + l'.length →
      (List.range' l.length l'.length).contains i = true := by
    intro i hle hlt
    simp only [List.contains_eq_mem, decide_eq_true_eq, List.mem_range'_1]
    omega
  rw [List.zipIdx_append, List.map_append, map_zipIdx_of_test hfirst, map_zipIdx_of_test hlast]

/-- Taking values away does not change what a test lets through that all of them fail. -/
theorem filter_diff_of_fails [DecidableEq α] {p : α → Bool} {l m : List α}
    (h : ∀ a ∈ m, p a = false) : (l.diff m).filter p = l.filter p := by
  induction m generalizing l with
  | nil => rw [List.diff_nil]
  | cons a m ih =>
    obtain ⟨ha, hrest⟩ := List.forall_mem_cons.1 h
    have hgone : a ∉ l.filter p := fun hmem => by
      simp [ha] at hmem
    rw [List.diff_cons, ih hrest, ← List.erase_filter, List.erase_of_not_mem hgone]

end

/-! ## Turned edges -/

variable {κ : Type} {g : KeyedGraph κ} {limit : Option Nat} {d : Dag κ} {e : Edge}

namespace KeyedGraph

theorem mem_backEdges_of_mem_reversed (h : g.breakCycles limit = .ok d) (he : e ∈ d.reversed) :
    e ∈ g.adjacency.strongComponents.backEdges := by
  obtain ⟨n, -, -, hrounds, -⟩ := Draft.exists_passes_of_settle h
  have hperm := ((Draft.balanced_ofGraph g).iterate_pass n).backEdges
  rw [Draft.base_iterate_pass] at hperm
  rw [Dag.reversed, hrounds] at he
  exact hperm.subset (List.mem_append_left _ he)

theorem flip_notMem_reversed (h : g.breakCycles limit = .ok d) (he : e ∈ d.reversed) :
    e.flip ∉ d.reversed := fun hflip =>
  DepthFirst.flip_not_mem_backEdges (mem_backEdges_of_mem_reversed h he)
    (mem_backEdges_of_mem_reversed h hflip)

/-- The edges that are left are those that were not turned: no copy of a turned edge is left. -/
theorem diff_reversed_of_breakCycles (h : g.breakCycles limit = .ok d) :
    g.edges.toList.diff d.reversed = g.edges.toList.filter (· ∉ d.reversed) := by
  have hleft : ∀ e ∈ g.edges.toList.diff d.reversed, e ∉ d.reversed := by
    intro e he hreversed
    refine not_mem_edges_of_breakCycles h (mem_backEdges_of_mem_reversed h hreversed) ?_
    rw [edges_of_breakCycles h]
    exact List.mem_append_left _ he
  rw [← filter_diff_of_fails (m := d.reversed) (by simp), List.filter_eq_self.2 (by simpa)]

end KeyedGraph

/-! ## The drawing -/

/-- An edge between nodes as it is drawn. -/
def Edge.drawn (e : Edge) (style : List Attribute) : DrawnEdge :=
  ⟨nodeName e.source, nodeName e.target, style⟩

theorem map_ends_drawn (es : List Edge) (style : List Attribute) :
    (es.map (Edge.drawn · style)).map DrawnEdge.ends = es.map Edge.names := by
  rw [List.map_map]
  rfl

theorem isSettled_drawn {style : List Attribute} (h : IsSettled style) (e : Edge) :
    (e.drawn style).IsSettled :=
  ⟨withoutReturns_nodeName _, withoutReturns_nodeName _, h⟩

/-- Edges of one style are all in that style, and none in another. -/
theorem filter_map_drawn (es : List Edge) (style style' : List Attribute) :
    (es.map (Edge.drawn · style)).filter (·.attributes == style') =
      if style = style' then es.map (Edge.drawn · style) else [] := by
  split_ifs with h <;> simp [Edge.drawn, h]

variable [KeyText κ]

/-- The nodes of a graph as they are drawn. -/
def KeyedGraph.drawnNodes (g : KeyedGraph κ) : List DrawnNode :=
  g.keys.zipIdx.map fun (key, v) => ⟨nodeName v, KeyText.plain key, []⟩

namespace Dag

/-- The edges of an acyclic graph as they are drawn. -/
def drawnEdges (d : Dag κ) : List DrawnEdge :=
  d.graph.edges.toList.zipIdx.map fun (e, i) =>
    e.drawn (if d.turnedAt.contains i then turnedStyle else [])

theorem drawing_eq_ofParts (d : Dag κ) (title : String) :
    d.drawing title =
      Document.ofParts "acyclic" title d.graph.drawnNodes d.drawnEdges := by
  rw [Document.ofParts, KeyedGraph.drawnNodes, drawnEdges, List.map_map, List.map_map]
  rfl

omit [KeyText κ] in
/-- The edges are drawn in their order. -/
theorem map_ends_drawnEdges (d : Dag κ) :
    d.drawnEdges.map DrawnEdge.ends = d.graph.edges.toList.map Edge.names := by
  calc d.drawnEdges.map DrawnEdge.ends
      = (d.graph.edges.toList.zipIdx.map Prod.fst).map Edge.names := by
        rw [drawnEdges, List.map_map, List.map_map]
        rfl
    _ = d.graph.edges.toList.map Edge.names := by rw [List.zipIdx_map_fst]

omit [KeyText κ] in
/-- The given edges that were not turned are drawn plain, and behind them the turned ones are
marked. -/
theorem drawnEdges_of_breakCycles (h : g.breakCycles limit = .ok d) :
    d.drawnEdges = (g.edges.toList.filter (· ∉ d.reversed)).map (Edge.drawn · []) ++
      (d.reversed.map Edge.flip).map (Edge.drawn · turnedStyle) := by
  have hperm := List.subperm_append_diff_self_of_count_le
    (List.subperm_ext_iff.1 (KeyedGraph.subperm_reversed_of_breakCycles h))
  have hlength := hperm.length_eq
  rw [List.length_append] at hlength
  have hfront : g.edgeCount - d.reversed.length = (g.edges.toList.diff d.reversed).length :=
    Nat.sub_eq_of_eq_add' hlength.symm
  have hback : d.reversed.length = (d.reversed.map Edge.flip).length := (List.length_map _).symm
  have hmarked := map_zipIdx_append_contains (g.edges.toList.diff d.reversed)
    (d.reversed.map Edge.flip) fun e marked => e.drawn (if marked then turnedStyle else [])
  rw [← hfront, ← hback, ← KeyedGraph.edges_of_breakCycles h,
    ← KeyedGraph.turnedAt_of_breakCycles h, KeyedGraph.diff_reversed_of_breakCycles h] at hmarked
  exact hmarked

/-- The drawing is read back from its text, with the nodes under the given keys. -/
theorem read?_drawing_of_breakCycles (h : g.breakCycles limit = .ok d) (title : String) :
    Document.read? (d.drawing title).render =
      some (Document.ofParts "acyclic" (withoutReturns title) (g.drawnNodes.map DrawnNode.shown)
        d.drawnEdges) := by
  have hkeys : d.graph.drawnNodes = g.drawnNodes := by
    rw [KeyedGraph.drawnNodes, KeyedGraph.keys, KeyedGraph.labels_of_breakCycles h]
    rfl
  have hnodes : ∀ v ∈ g.drawnNodes, v.IsSettled := by
    intro v hv
    obtain ⟨⟨key, v⟩, -, rfl⟩ := List.mem_map.1 hv
    exact ⟨withoutReturns_nodeName v, List.forall_mem_nil _, rfl⟩
  have hedges : ∀ e ∈ d.drawnEdges, e.IsSettled := by
    intro e he
    obtain ⟨⟨e, i⟩, -, rfl⟩ := List.mem_map.1 he
    refine isSettled_drawn ?_ e
    split <;> decide
  rw [drawing_eq_ofParts, hkeys, Document.read?_render_ofParts hnodes hedges]
  rfl

end Dag

/-- The drawing of the acyclic graph, read back from its text, shows the nodes under their keys in
the order of their numbers, and the edges in their order. The marked edges, swapped, are the turned
edges in their order. All others are plain, and they are the given edges that were not turned, in
their order. So a given edge that runs like a flipped one stays plain, as often as it was given. -/
theorem KeyedGraph.drawing_marks_reversed (h : g.breakCycles limit = .ok d) (title : String) :
    ∃ doc, Document.read? (d.drawing title).render = some doc ∧
      doc.drawnNodes = g.keys.zipIdx.map (fun (key, v) =>
        ⟨nodeName v, withoutReturns (KeyText.plain key), []⟩) ∧
      doc.drawnEdges.map DrawnEdge.ends = d.graph.edges.toList.map Edge.names ∧
      (doc.edgesIn turnedStyle).map Prod.swap = d.reversed.map Edge.names ∧
      doc.edgesIn [] = (g.edges.toList.filter (· ∉ d.reversed)).map Edge.names ∧
      (∀ e ∈ doc.drawnEdges, e.attributes = turnedStyle ∨ e.attributes = []) ∧
      ∀ e ∈ d.reversed, (doc.edgesIn []).count e.flip.names = g.edges.toList.count e.flip := by
  refine ⟨_, d.read?_drawing_of_breakCycles h title, ?_⟩
  simp only [Document.edgesIn, Document.drawnNodes_ofParts, Document.drawnEdges_ofParts]
  have hdrawn := d.drawnEdges_of_breakCycles h
  have hplain : (d.drawnEdges.filter (·.attributes == [])).map DrawnEdge.ends =
      (g.edges.toList.filter (· ∉ d.reversed)).map Edge.names := by
    rw [hdrawn, List.filter_append, filter_map_drawn, filter_map_drawn, if_pos rfl,
      if_neg (by decide), List.append_nil, map_ends_drawn]
  have hmarked : (d.drawnEdges.filter (·.attributes == turnedStyle)).map DrawnEdge.ends =
      (d.reversed.map Edge.flip).map Edge.names := by
    rw [hdrawn, List.filter_append, filter_map_drawn, filter_map_drawn, if_neg (by decide),
      if_pos rfl, List.nil_append, map_ends_drawn]
  refine ⟨?_, d.map_ends_drawnEdges, ?_, hplain, ?_, ?_⟩
  · rw [drawnNodes, List.map_map]
    rfl
  · rw [hmarked, List.map_map, List.map_map]
    rfl
  · intro e he
    rw [hdrawn, List.mem_append, List.mem_map, List.mem_map] at he
    rcases he with ⟨e, -, rfl⟩ | ⟨e, -, rfl⟩
    · exact .inr rfl
    · exact .inl rfl
  · intro e he
    rw [hplain, List.count_map_of_injective _ _ Edge.names_injective]
    exact List.count_filter (decide_eq_true (flip_notMem_reversed h he))

theorem KeyedGraph.drawing_backAndForth :
    ∃ d doc, backAndForth.breakCycles none = .ok d ∧
      Document.read? (d.drawing "").render = some doc ∧
      doc.edgesIn turnedStyle = [("n0", "n1")] ∧
      doc.edgesIn [] = [("n0", "n1"), ("n1", "n2")] := by
  have hread : (backAndForth.breakCycles none).toOption.map Dag.reversed = some [⟨1, 0⟩] := by
    decide
  cases hd : backAndForth.breakCycles none with
  | error s => simp [hd, Except.toOption] at hread
  | ok d =>
    rw [hd, Except.toOption, Option.map_some, Option.some.injEq] at hread
    obtain ⟨doc, hdoc, -, -, hmarked, hplain, -⟩ := drawing_marks_reversed hd ""
    rw [hread] at hmarked hplain
    refine ⟨d, doc, rfl, hdoc, ?_, hplain⟩
    have hswap := congrArg (List.map Prod.swap) hmarked
    rw [List.map_map, Prod.swap_swap_eq, List.map_id] at hswap
    exact hswap

end FlowBubbles
