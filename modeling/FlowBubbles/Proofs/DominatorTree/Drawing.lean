import FlowBubbles.Proofs.DominatorTree.Edges
import FlowBubbles.Proofs.Dot.Drawn

/-!
# The drawing of a tree

The nodes of the tree are drawn by rank, below the super-root if that is part of the result, and the
edges of the report follow. Names of drawn nodes are different (`Report.drawnName_injective`), so
that everything about the drawing can be said about nodes and edges of the tree. The starts of the
bubbles are those nodes that have a double circle (`Dag.filter_nodes_starts`). As the edge of a
bubble is always an edge of the tree, and no edge of a super-root, the marked edges are the edges of
the bubbles (`Dag.perm_filter_edges`).
-/

namespace FlowBubbles

open Dot

/-! ## Bubbles among the nodes and edges of a tree -/

/-- The values that come from some element are those elements, if each value tells where it comes
from. -/
theorem filter_any_filterMap {α β : Type} [DecidableEq α] {f : α → Option β} {origin : β → α}
    (horigin : ∀ a b, f a = some b → origin b = a) (l : List α) :
    l.filter (fun a => (l.filterMap f).any (origin · == a)) = (l.filterMap f).map origin := by
  have hcomes : ∀ a ∈ l, (l.filterMap f).any (origin · == a) = (f a).isSome := by
    intro a ha
    rw [Bool.eq_iff_iff, List.any_eq_true, Option.isSome_iff_exists]
    constructor
    · rintro ⟨b, hb, heq⟩
      obtain ⟨a', -, hb⟩ := List.mem_filterMap.1 hb
      obtain rfl : a' = a := (horigin a' b hb).symm.trans (beq_iff_eq.1 heq)
      exact ⟨b, hb⟩
    · rintro ⟨b, hb⟩
      exact ⟨b, List.mem_filterMap.2 ⟨a, ha, hb⟩, beq_iff_eq.2 (horigin a b hb)⟩
  have hback : ∀ a, (f a).map origin = Option.guard (fun a => (f a).isSome) a := by
    intro a
    cases hb : f a with
    | none => simp [Option.guard, hb]
    | some b => simp [Option.guard, hb, horigin a b hb]
  rw [List.filter_congr hcomes, List.map_filterMap, funext hback, List.filterMap_eq_filter]

namespace Dag

variable {κ : Type} [DecidableEq κ] [KeyText κ] (d : Dag κ) {entry : Option κ} {allow : Bool}
  {t : DominatorTree}

omit [DecidableEq κ] [KeyText κ] in
/-- The nodes of the tree at which bubbles start, by rank, are the starts of the bubbles. -/
theorem filter_nodes_starts (t : DominatorTree) :
    t.nodes.filter (fun v => (d.bubbles t).any (·.start == v)) = (d.bubbles t).map Bubble.start := by
  have hbubbles : d.bubbles t = t.nodes.filterMap fun v =>
      if 1 < (d.graph.adjacency.pred v).length then
        (Bubble.latest d.ranks.get (t.children v)).map (⟨v, ·⟩)
      else none := by
    rw [bubbles, List.filterMap_filter]
    simp only [decide_eq_true_eq]
  rw [hbubbles]
  refine filter_any_filterMap (fun v b hb => ?_) t.nodes
  split at hb
  · obtain ⟨e, -, rfl⟩ := Option.map_eq_some_iff.1 hb
    rfl
  · cases hb

/-- The edges of a tree along which bubbles run are the edges of the bubbles. -/
theorem perm_filter_edges (h : d.dominatorTree entry allow = .ok t) {es : List Edge}
    (hnodup : es.Nodup) (hsub : ∀ e ∈ t.edges, e ∈ es) :
    (es.filter fun e => (d.bubbles t).any (·.edge == e)).Perm ((d.bubbles t).map Bubble.edge) := by
  have hedges : ((d.bubbles t).map Bubble.edge).Nodup := by
    refine List.Nodup.of_map Edge.source ?_
    rw [List.map_map]
    exact d.nodup_starts h
  refine (List.perm_ext_iff_of_nodup (hnodup.filter _) hedges).2 fun e => ?_
  rw [List.mem_filter, List.any_eq_true, List.mem_map]
  constructor
  · rintro ⟨-, b, hb, heq⟩
    exact ⟨b, hb, beq_iff_eq.1 heq⟩
  · rintro ⟨b, hb, rfl⟩
    exact ⟨hsub _ (d.edge_mem_edges h hb), b, hb, beq_iff_eq.2 rfl⟩

end Dag

/-! ## The drawing -/

/-- How the super-root is drawn. -/
def superRootStyle : List Attribute := [⟨"shape", "point"⟩]

/-- How the start of a bubble is drawn. -/
def startStyle : List Attribute := [⟨"shape", "doublecircle"⟩]

/-- How the edge of a bubble is drawn. -/
def bubbleStyle : List Attribute := [⟨"color", "blue"⟩, ⟨"penwidth", "2"⟩]

namespace Report

section

variable {κ : Type} (r : Report κ)

/-- Whether the super-root is drawn. -/
def drawsSuperRoot : Bool := r.includesSuperRoot && r.tree.superRoot.isSome

theorem drawnName_of_isSuperRoot {v : Nat} (h : r.tree.isSuperRoot v = true) :
    r.drawnName v = "super_root" := if_pos h

theorem drawnName_of_not_isSuperRoot {v : Nat} (h : r.tree.isSuperRoot v = false) :
    r.drawnName v = nodeName v := if_neg (by simp [h])

theorem drawnName_injective : Function.Injective r.drawnName := by
  intro u v h
  cases hu : r.tree.isSuperRoot u <;> cases hv : r.tree.isSuperRoot v
  · rw [r.drawnName_of_not_isSuperRoot hu, r.drawnName_of_not_isSuperRoot hv] at h
    exact nodeName_injective h
  · rw [r.drawnName_of_not_isSuperRoot hu, r.drawnName_of_isSuperRoot hv] at h
    exact absurd h (nodeName_ne_super_root u)
  · rw [r.drawnName_of_isSuperRoot hu, r.drawnName_of_not_isSuperRoot hv] at h
    exact absurd h.symm (nodeName_ne_super_root v)
  · rw [DominatorTree.isSuperRoot, beq_iff_eq] at hu hv
    exact Option.some.inj (hu.symm.trans hv)

theorem withoutReturns_drawnName (v : Nat) : withoutReturns (r.drawnName v) = r.drawnName v := by
  rw [drawnName]
  split
  · decide
  · exact withoutReturns_nodeName v

/-- The names at the ends of an edge of the tree. -/
def drawnEnds (e : Edge) : String × String := (r.drawnName e.source, nodeName e.target)

theorem drawnEnds_injective : Function.Injective r.drawnEnds := by
  rintro ⟨p, v⟩ ⟨p', v'⟩ h
  obtain ⟨hsource, htarget⟩ := Prod.ext_iff.1 h
  obtain rfl := r.drawnName_injective hsource
  obtain rfl := nodeName_injective htarget
  rfl

/-- An edge of the tree as it is drawn. -/
def drawnEdge (e : Edge) : DrawnEdge :=
  ⟨r.drawnName e.source, nodeName e.target,
    if r.bubbles.any (·.edge == e) then bubbleStyle else []⟩

/-- The super-root as it is drawn, if it is part of the result. -/
def drawnSuperRoot : List DrawnNode :=
  if r.drawsSuperRoot then [⟨"super_root", "super-root", superRootStyle⟩] else []

theorem isSettled_drawnEdge (e : Edge) : (r.drawnEdge e).IsSettled := by
  refine ⟨r.withoutReturns_drawnName _, withoutReturns_nodeName _, ?_⟩
  dsimp only [drawnEdge]
  split <;> decide

variable [KeyText κ]

/-- A node of the tree as it is drawn. -/
def drawnNode (v : Nat) : DrawnNode :=
  ⟨nodeName v, ((r.dag.graph.key? v).map KeyText.plain).getD "",
    if r.bubbles.any (·.start == v) then startStyle else []⟩

/-- The nodes that the drawing shows. -/
def drawnNodes : List DrawnNode := r.drawnSuperRoot ++ r.tree.nodes.map r.drawnNode

theorem isSettled_of_mem_drawnNodes {v : DrawnNode} (hv : v ∈ r.drawnNodes) : v.IsSettled := by
  rcases List.mem_append.1 hv with hv | hv
  · rw [drawnSuperRoot] at hv
    split at hv
    · obtain rfl := List.mem_singleton.1 hv
      exact ⟨by decide, by decide⟩
    · cases hv
  · obtain ⟨v, -, rfl⟩ := List.mem_map.1 hv
    refine ⟨withoutReturns_nodeName v, ?_⟩
    dsimp only [drawnNode]
    split <;> decide

theorem drawing_eq_ofParts (title : String) :
    r.drawing title =
      Document.ofParts "domtree" title r.drawnNodes (r.treeEdges.map r.drawnEdge) := by
  have hsuper : r.superRootStatements = r.drawnSuperRoot.map DrawnNode.statement := by
    rw [superRootStatements, drawnSuperRoot, drawsSuperRoot]
    split <;> rfl
  rw [drawing, Document.ofParts, drawnNodes, List.map_append, List.map_map, List.map_map, hsuper]
  rfl

/-- The drawing is read back from its text. -/
theorem read?_drawing (title : String) :
    Document.read? (r.drawing title).render =
      some (Document.ofParts "domtree" (withoutReturns title) (r.drawnNodes.map DrawnNode.shown)
        (r.treeEdges.map r.drawnEdge)) := by
  have hedges : ∀ e ∈ r.treeEdges.map r.drawnEdge, e.IsSettled := by
    intro e he
    obtain ⟨e, -, rfl⟩ := List.mem_map.1 he
    exact r.isSettled_drawnEdge e
  rw [drawing_eq_ofParts,
    Document.read?_render_ofParts (fun v => r.isSettled_of_mem_drawnNodes) hedges]
  rfl

/-! ### Names of the drawing -/

/-- The names of the drawn nodes. -/
def drawnNames : List String :=
  (if r.drawsSuperRoot then ["super_root"] else []) ++ r.tree.nodes.map nodeName

theorem map_name_shown_drawnNodes :
    (r.drawnNodes.map DrawnNode.shown).map DrawnNode.name = r.drawnNames := by
  rw [drawnNodes, drawnNames, drawnSuperRoot, List.map_append, List.map_append, List.map_map,
    List.map_map, List.map_map]
  split <;> rfl

variable {r} {n : Nat} {e : Edge}

theorem map_label_shown_drawnNodes (h : r.tree.Consistent r.dag.graph.size) :
    (r.drawnNodes.map DrawnNode.shown).map DrawnNode.label =
      (if r.drawsSuperRoot then ["super-root"] else []) ++
        (r.dag.graph.keysOf r.tree.nodes).map fun k => withoutReturns (KeyText.plain k) := by
  have hsuper : (r.drawnSuperRoot.map DrawnNode.shown).map DrawnNode.label =
      if r.drawsSuperRoot then ["super-root"] else [] := by
    rw [drawnSuperRoot]
    split <;> decide
  -- every node of the tree has a key, so no label is the empty default
  have hkey : ∀ v ∈ r.tree.nodes,
      (r.dag.graph.key? v).map (fun k => withoutReturns (KeyText.plain k)) =
        some (r.drawnNode v).shown.label := by
    intro v hv
    obtain ⟨k, hk⟩ := KeyedGraph.exists_key? (h.mem_nodes_iff.1 hv).2
    rw [DrawnNode.shown, drawnNode, hk]
    rfl
  rw [drawnNodes, List.map_append, List.map_append, hsuper, KeyedGraph.keysOf, List.map_filterMap,
    List.filterMap_congr hkey, List.filterMap_eq_map', List.map_map, List.map_map]
  rfl

omit [KeyText κ] in
theorem nodup_drawnNames (h : r.tree.Consistent n) : r.drawnNames.Nodup := by
  have hnodes : (r.tree.nodes.map nodeName).Nodup :=
    (h.nodup_order.filter _).map nodeName_injective
  rw [drawnNames]
  split
  · refine List.nodup_cons.2 ⟨fun hmem => ?_, hnodes⟩
    obtain ⟨v, -, hv⟩ := List.mem_map.1 hmem
    exact nodeName_ne_super_root v hv
  · exact hnodes

omit [KeyText κ] in
/-- The drawn edges run between drawn nodes. In particular, an edge of the super-root is drawn only
if the super-root is. -/
theorem ends_mem_drawnNames (h : r.tree.Consistent n) (he : e ∈ r.treeEdges) :
    r.drawnName e.source ∈ r.drawnNames ∧ nodeName e.target ∈ r.drawnNames := by
  obtain ⟨hp, hsuper⟩ := (mem_treeEdges_iff h).1 he
  have hnode : ∀ {v}, v ∈ r.tree.nodes → nodeName v ∈ r.drawnNames := fun hv =>
    List.mem_append_right _ (List.mem_map_of_mem hv)
  refine ⟨?_, hnode (h.mem_nodes_of_immediateDominator hp)⟩
  cases hsource : r.tree.isSuperRoot e.source with
  | false =>
    rw [r.drawnName_of_not_isSuperRoot hsource]
    exact hnode (h.parent_mem_nodes hp (DominatorTree.isSuperRoot_eq_false_iff.1 hsource))
  | true =>
    have hroot : r.tree.superRoot = some e.source := beq_iff_eq.1 hsource
    have hdraws : r.drawsSuperRoot = true := by
      rw [drawsSuperRoot, hsuper.resolve_right (· hroot), hroot]
      rfl
    rw [r.drawnName_of_isSuperRoot hsource, drawnNames, if_pos hdraws]
    exact List.mem_append_left _ (List.mem_singleton_self _)

/-! ### Styles of the drawing -/

/-- The nodes with a double circle are those at which bubbles start. -/
theorem map_name_filter_drawnNodes (r : Report κ) :
    ((r.drawnNodes.map DrawnNode.shown).filter (·.attributes == startStyle)).map DrawnNode.name =
      (r.tree.nodes.filter fun v => r.bubbles.any (·.start == v)).map nodeName := by
  have hsuper : (r.drawnSuperRoot.map DrawnNode.shown).filter (·.attributes == startStyle) = [] := by
    rw [drawnSuperRoot]
    split <;> rfl
  have hstyle : ∀ v, ((r.drawnNode v).shown.attributes == startStyle) =
      r.bubbles.any (·.start == v) := by
    intro v
    dsimp only [drawnNode, DrawnNode.shown]
    cases r.bubbles.any (·.start == v) <;> rfl
  rw [drawnNodes, List.map_append, List.filter_append, hsuper, List.nil_append, List.map_map,
    List.filter_map, List.map_map]
  exact congrArg (List.map nodeName) (List.filter_congr fun v _ => hstyle v)

/-- A drawn node is styled by its name: as the super-root, as the start of a bubble, or not at all. -/
theorem attributes_of_mem_drawnNodes (r : Report κ) {v : DrawnNode}
    (hv : v ∈ r.drawnNodes.map DrawnNode.shown) : v.attributes =
      if v.name = "super_root" then superRootStyle
      else if v.name ∈ r.bubbles.map (nodeName ·.start) then startStyle
      else [] := by
  obtain ⟨v, hdrawn, rfl⟩ := List.mem_map.1 hv
  rcases List.mem_append.1 hdrawn with hsuper | hnode
  · rw [drawnSuperRoot] at hsuper
    split at hsuper
    · obtain rfl := List.mem_singleton.1 hsuper
      exact (if_pos rfl).symm
    · cases hsuper
  · obtain ⟨v, -, rfl⟩ := List.mem_map.1 hnode
    have hstart : nodeName v ∈ r.bubbles.map (nodeName ·.start) ↔
        r.bubbles.any (·.start == v) = true := by
      simp [nodeName_injective.eq_iff]
    have hname : (r.drawnNode v).shown.name = nodeName v := rfl
    rw [hname, if_neg (nodeName_ne_super_root v), if_congr hstart rfl rfl]
    rfl

omit [KeyText κ] in
/-- The marked edges are those along which bubbles run. -/
theorem map_ends_filter_drawnEdges (r : Report κ) :
    ((r.treeEdges.map r.drawnEdge).filter (·.attributes == bubbleStyle)).map DrawnEdge.ends =
      (r.treeEdges.filter fun e => r.bubbles.any (·.edge == e)).map r.drawnEnds := by
  have hstyle : ∀ e, ((r.drawnEdge e).attributes == bubbleStyle) =
      r.bubbles.any (·.edge == e) := by
    intro e
    dsimp only [drawnEdge]
    cases r.bubbles.any (·.edge == e) <;> rfl
  rw [List.filter_map, List.map_map]
  exact congrArg (List.map r.drawnEnds) (List.filter_congr fun e _ => hstyle e)

end

section

variable {κ σ : Type} [DecidableEq κ] [KeyText κ] {c : Config κ} {g : KeyedGraph κ}
  {r : Report κ}

/-- The drawing of the tree of an analysis that succeeds, read back from its text, declares each name
that an edge uses exactly once, and before it. It shows the nodes of the tree by rank under their
keys, behind the super-root if there is one that is part of the result, and each edge of the report
once. The marked edges are the edges of the bubbles, and the nodes with a double circle are the starts
of the bubbles. No other edge has a style, and no other node but the super-root. -/
theorem tree_drawing_complete {observers : List (Observer κ σ)} {s : σ}
    (h : (analyzeWith c observers g s).1 = .ok r) (title : String) :
    ∃ doc, Document.read? (r.drawing title).render = some doc ∧
      doc.DeclaresEnds ∧
      doc.drawnNodes.map DrawnNode.name =
        (if c.includeSuperRoot && r.tree.superRoot.isSome then ["super_root"] else []) ++
          r.tree.nodes.map nodeName ∧
      doc.drawnNodes.map DrawnNode.label =
        (if c.includeSuperRoot && r.tree.superRoot.isSome then ["super-root"] else []) ++
          (r.dag.graph.keysOf r.tree.nodes).map (fun k => withoutReturns (KeyText.plain k)) ∧
      r.tree.nodes.Pairwise (fun u v => r.dag.order.idxOf u < r.dag.order.idxOf v) ∧
      doc.drawnEdges.map DrawnEdge.ends =
        r.treeEdges.map (fun e => (r.drawnName e.source, nodeName e.target)) ∧
      (doc.drawnEdges.map DrawnEdge.ends).Nodup ∧
      (doc.edgesIn bubbleStyle).Perm (r.bubbles.map (·.edge.names)) ∧
      (∀ e ∈ doc.drawnEdges, e.attributes = bubbleStyle ∨ e.attributes = []) ∧
      doc.nodesIn startStyle = r.bubbles.map (nodeName ·.start) ∧
      ∀ v ∈ doc.drawnNodes, v.attributes =
        if v.name = "super_root" then superRootStyle
        else if v.name ∈ r.bubbles.map (nodeName ·.start) then startStyle
        else [] := by
  obtain ⟨-, htree, hbubbles⟩ := stages_of_analyze (analyze_of_analyzeWith h)
  have hconsistent := r.dag.consistent_of_dominatorTree htree
  have hincludes := includesSuperRoot_of_analyze (analyze_of_analyzeWith h)
  have hends : (r.treeEdges.map r.drawnEdge).map DrawnEdge.ends = r.treeEdges.map r.drawnEnds := by
    rw [List.map_map]
    rfl
  have hstarts := r.dag.filter_nodes_starts r.tree
  have hedges := r.dag.perm_filter_edges htree (nodup_treeEdges hconsistent) fun e =>
    mem_treeEdges_of_mem_edges hconsistent
  -- no bubble starts at the super-root
  have hnames : (r.bubbles.map Bubble.edge).map r.drawnEnds = r.bubbles.map (·.edge.names) := by
    rw [List.map_map]
    refine List.map_congr_left fun b hb => ?_
    rw [hbubbles] at hb
    have hsuper := (hconsistent.mem_edges_iff.1 (r.dag.edge_mem_edges htree hb)).2
    exact Prod.ext (r.drawnName_of_not_isSuperRoot
      (DominatorTree.isSuperRoot_eq_false_iff.2 hsuper)) rfl
  rw [← hbubbles] at hstarts hedges
  refine ⟨_, r.read?_drawing title, ?_, ?_, ?_, r.dag.pairwise_nodes_of_dominatorTree htree, ?_⟩
  · refine Document.declaresEnds_ofParts ?_ fun e he => ?_
    · rw [map_name_shown_drawnNodes]
      exact nodup_drawnNames hconsistent
    · obtain ⟨e', he', rfl⟩ := List.mem_map.1 he
      rw [map_name_shown_drawnNodes]
      exact ends_mem_drawnNames hconsistent he'
  · rw [Document.drawnNodes_ofParts, map_name_shown_drawnNodes, drawnNames, drawsSuperRoot, hincludes]
  · rw [Document.drawnNodes_ofParts, map_label_shown_drawnNodes hconsistent, drawsSuperRoot, hincludes]
  · simp only [Document.edgesIn, Document.nodesIn, Document.drawnNodes_ofParts,
      Document.drawnEdges_ofParts]
    refine ⟨hends, ?_, ?_, ?_, ?_, fun v => r.attributes_of_mem_drawnNodes⟩
    · rw [hends]
      exact (nodup_treeEdges hconsistent).map r.drawnEnds_injective
    · rw [map_ends_filter_drawnEdges, ← hnames]
      exact hedges.map r.drawnEnds
    · intro e he
      obtain ⟨e, -, rfl⟩ := List.mem_map.1 he
      dsimp only [drawnEdge]
      split
      · exact .inl rfl
      · exact .inr rfl
    · rw [map_name_filter_drawnNodes, hstarts, List.map_map]
      rfl

end

theorem tree_drawing_confluence :
    ∃ r doc, (analyzeWith { includeSuperRoot := true } ([] : List (Observer String Unit))
        Dag.confluence.graph ()).1 = .ok r ∧
      Document.read? (r.drawing "").render = some doc ∧
      doc.drawnEdges.map DrawnEdge.ends =
        [("super_root", "n0"), ("super_root", "n1"), ("super_root", "n2"), ("super_root", "n3"),
          ("super_root", "n4"), ("n4", "n5")] ∧
      (doc.edgesIn bubbleStyle).Perm [("n4", "n5")] ∧ doc.nodesIn startStyle = ["n4"] ∧
      ∀ v ∈ doc.drawnNodes, v.attributes =
        if v.name = "super_root" then superRootStyle
        else if v.name ∈ ["n4"] then startStyle
        else [] := by
  have hread : (analyzeWith { includeSuperRoot := true } ([] : List (Observer String Unit))
      Dag.confluence.graph ()).1.toOption.map (fun r =>
        (r.bubbles, r.treeEdges.map fun e => (r.drawnName e.source, nodeName e.target))) =
      some ([⟨4, 5⟩], [("super_root", "n0"), ("super_root", "n1"), ("super_root", "n2"),
        ("super_root", "n3"), ("super_root", "n4"), ("n4", "n5")]) := by
    decide
  cases hr : (analyzeWith { includeSuperRoot := true } ([] : List (Observer String Unit))
      Dag.confluence.graph ()).1 with
  | error e => simp [hr, Except.toOption] at hread
  | ok r =>
    rw [hr, Except.toOption, Option.map_some, Option.some.injEq, Prod.mk.injEq] at hread
    obtain ⟨hbubbles, hedges⟩ := hread
    obtain ⟨doc, hdoc, -, -, -, -, hends, -, hmarked, -, hstarts, hstyles⟩ :=
      tree_drawing_complete hr ""
    rw [hbubbles] at hmarked hstarts hstyles
    exact ⟨r, doc, rfl, hdoc, hends.trans hedges, hmarked, hstarts, hstyles⟩

end Report

end FlowBubbles
