import FlowBubbles.Proofs.Dag.Limit
import FlowBubbles.Proofs.KeyedGraph.Growth

/-!
# Keys and nodes in two stores

A `KeyedGraph` finds the node of a key by looking through its labels. A `Store` keeps a table of the
nodes next to the graph, looks keys up in it, and writes to both: a new key goes into the graph and
into the table, and when the edges are replaced the graph is built anew while the table is copied.
It checks the ends of each edge, so its operations could fail. They do not: a store that is in step
with a graph stays in step with it under every operation (`Store.Agree`).
-/

namespace FlowBubbles

/-! ## Graphs that are built step by step -/

namespace Digraph

variable {κ : Type} {g g' : Digraph κ} {es : List Edge}

theorem eq_of_labels_of_edges (hlabels : g.labels = g'.labels) (hedges : g.edges = g'.edges) :
    g = g' := by
  cases g
  cases g'
  congr

/-- Adds edges one after the other, up to the first one with an end that is no node. -/
def addEdges (g : Digraph κ) (es : List Edge) : Except Error (Digraph κ) :=
  es.foldlM addEdge g

theorem addEdge_of_lt {e : Edge} (he : e.source < g.size ∧ e.target < g.size) :
    g.addEdge e = .ok (g.insertEdge e he) := by
  rw [addEdge, dif_pos he.1, dif_pos he.2]

/-- Edges between nodes of the graph are all added. -/
theorem addEdges_of_lt (h : ∀ e ∈ es, e.source < g.size ∧ e.target < g.size) :
    ∃ g', g.addEdges es = .ok g' ∧ g'.labels = g.labels ∧
      g'.edges.toList = g.edges.toList ++ es := by
  induction es generalizing g with
  | nil => exact ⟨g, rfl, rfl, (List.append_nil _).symm⟩
  | cons e es ih =>
    obtain ⟨he, hrest⟩ := List.forall_mem_cons.1 h
    obtain ⟨g', hg', hlabels, hedges⟩ := ih (g := g.insertEdge e he) hrest
    refine ⟨g', ?_, hlabels, ?_⟩
    · rw [addEdges, List.foldlM_cons, addEdge_of_lt he]
      exact hg'
    · rw [hedges, insertEdge, Array.toList_push, List.append_assoc]
      rfl

/-- The graph with the listed labels and no edges. -/
def ofLabels (labels : List κ) : Digraph κ := labels.foldl addNode empty

theorem toList_labels_foldl_addNode (labels : List κ) (g : Digraph κ) :
    (labels.foldl addNode g).labels.toList = g.labels.toList ++ labels := by
  induction labels generalizing g with
  | nil => exact (List.append_nil _).symm
  | cons k labels ih =>
    rw [List.foldl_cons, ih, addNode, Array.toList_push, List.append_assoc]
    rfl

theorem edges_foldl_addNode (labels : List κ) (g : Digraph κ) :
    (labels.foldl addNode g).edges = g.edges := by
  induction labels generalizing g with
  | nil => rfl
  | cons k labels ih => rw [List.foldl_cons, ih, addNode]

/-- A graph that is built from the labels of another one and from edges between its nodes. -/
theorem addEdges_ofLabels {es : Array Edge}
    (h : ∀ e ∈ es, e.source < g.size ∧ e.target < g.size) :
    (ofLabels g.labels.toList).addEdges es.toList = .ok (g.withEdges es h) := by
  have hlabels : (ofLabels g.labels.toList).labels = g.labels :=
    Array.toList_inj.1 ((toList_labels_foldl_addNode _ _).trans (List.nil_append _))
  have hlt : ∀ e ∈ es.toList, e.source < (ofLabels g.labels.toList).size ∧
      e.target < (ofLabels g.labels.toList).size := by
    intro e he
    rw [size, hlabels]
    exact h e (Array.mem_toList_iff.1 he)
  obtain ⟨g', hg', hlabels', hedges'⟩ := addEdges_of_lt hlt
  rw [hg']
  refine congrArg _ (eq_of_labels_of_edges (hlabels'.trans hlabels) (Array.toList_inj.1 ?_))
  rw [hedges', ofLabels, edges_foldl_addNode]
  exact List.nil_append _

end Digraph

/-! ## Stores -/

/-- A graph next to a table of the nodes of its labels. -/
structure Store (κ : Type) where
  graph : Digraph κ
  table : κ → Option Nat

namespace Store

variable {κ : Type}

/-- The graph without nodes, and the table without keys. -/
def empty : Store κ := ⟨Digraph.empty, fun _ => none⟩

/-- Joins two nodes, and says whether they were not joined before. -/
def join (x : Store κ) (e : Edge) : Except Error (Store κ × Bool) :=
  if x.graph.hasEdge e.source e.target then .ok (x, false)
  else (x.graph.addEdge e).map fun g => (⟨g, x.table⟩, true)

/-- Builds the graph anew with other edges, and keeps the table. -/
def withEdges (x : Store κ) (es : List Edge) : Except Error (Store κ) :=
  ((Digraph.ofLabels x.graph.labels.toList).addEdges es).map (⟨·, x.table⟩)

/-- Makes passes until there is a topological order. The graph is built anew in each pass. Gives
nothing if the budget is used up. -/
def settle : Nat → Store κ → List Arc → Except Error (Option (Store κ))
  | budget, x, arcs =>
    match x.graph.adjacency.topologicalOrder with
    | some _ => .ok (some x)
    | none =>
      match budget with
      | 0 => .ok none
      | budget + 1 =>
        let arcs := x.graph.adjacency.strongComponents.chosen.foldl Arc.turn arcs
        x.withEdges (arcs.map Arc.edge) >>= fun x => settle budget x arcs

/-- Makes the graph acyclic, if the limit on the passes allows it. -/
def breakCycles (x : Store κ) (limit : Option Nat) : Except Error (Option (Store κ)) :=
  x.settle (limit.getD x.graph.edgeCount) (x.graph.edges.toList.map (⟨·, false⟩))

variable [DecidableEq κ]

/-- The node of a key, which is put into the graph and into the table if it is not there. -/
def named (x : Store κ) (k : κ) : Store κ × Nat :=
  match x.table k with
  | some v => (x, v)
  | none =>
    let v := x.graph.size
    (⟨x.graph.addNode k, Function.update x.table k (some v)⟩, v)

/-- Adds a node, if its key is new. -/
def addNode (x : Store κ) (k : κ) : Store κ := (x.named k).1

/-- Joins the nodes of two keys, which are added if they are new, the source first. -/
def addEdge (x : Store κ) (source target : κ) : Except Error (Store κ × Bool) :=
  let s := x.named source
  let t := s.1.named target
  t.1.join ⟨s.2, t.2⟩

/-- Joins the pairs of keys in order. Refuses the first pair with a key that is not there. -/
def joinAll [KeyText κ] (x : Store κ) : List (κ × κ) → Except Error (Store κ)
  | [] => .ok x
  | (source, target) :: rest =>
    match x.table source, x.table target with
    | some s, some t => x.join ⟨s, t⟩ >>= fun joined => joined.1.joinAll rest
    | _, _ =>
      .error (.invalidGraph (.foreignEdge (KeyText.quoted source) (KeyText.quoted target)))

/-- The store of a list of keys and a list of pairs of them. -/
def ofLists [KeyText κ] (keys : List κ) (edges : List (κ × κ)) : Except Error (Store κ) :=
  (keys.foldl addNode empty).joinAll edges

/-! ## Stores in step with a graph -/

/-- Whether a store holds a graph with keys, and the table finds the node of each key. -/
structure InStep (x : Store κ) (g : KeyedGraph κ) : Prop where
  graph : x.graph = g.toDigraph
  table : ∀ k, x.table k = g.node? k

/-- Whether an operation on a store and one on a graph fail in the same way, or both succeed with
results that are in step. -/
def Agree : Except Error (Store κ) → Except Error (KeyedGraph κ) → Prop
  | .ok x, .ok g => x.InStep g
  | .error e, .error e' => e = e'
  | _, _ => False

variable {x : Store κ} {g : KeyedGraph κ} {k s t : κ} {r : Except Error (Store κ)}

theorem Agree.eq_error {e : Error} (h : Agree r (.error e)) : r = .error e := by
  cases r with
  | error e' => exact congrArg _ h
  | ok x => exact h.elim

theorem Agree.exists_eq_ok (h : Agree r (.ok g)) : ∃ x, r = .ok x ∧ x.InStep g := by
  cases r with
  | error e => exact h.elim
  | ok x => exact ⟨x, rfl, h⟩

theorem inStep_empty : InStep (κ := κ) empty .empty where
  graph := rfl
  table k := (KeyedGraph.node?_eq_none_iff.2 (by simp [KeyedGraph.keys, KeyedGraph.empty,
    Digraph.empty])).symm

namespace InStep

/-- Keys and nodes name each other in the two stores. -/
theorem table_eq_some_iff (h : x.InStep g) {v : Nat} :
    x.table k = some v ↔ x.graph.label? v = some k := by
  rw [h.table, KeyedGraph.node?_eq_some_iff, h.graph]
  rfl

theorem named (h : x.InStep g) (k : κ) :
    (x.addNode k).InStep (g.addNode k) ∧ (x.named k).2 = (g.named k).node := by
  cases hk : g.node? k with
  | some v =>
    obtain ⟨hnode, hgraph⟩ := KeyedGraph.named_of_some hk
    have hx : x.named k = (x, v) := by rw [Store.named, h.table, hk]
    rw [Store.addNode, hx, hgraph, hnode]
    exact ⟨h, rfl⟩
  | none =>
    obtain ⟨hnode, hgraph⟩ := KeyedGraph.named_of_none hk
    have hx : x.named k =
        (⟨x.graph.addNode k, Function.update x.table k (some x.graph.size)⟩, x.graph.size) := by
      rw [Store.named, h.table, hk]
    have hsize : x.graph.size = g.size := congrArg Digraph.size h.graph
    rw [Store.addNode, hx, hnode]
    refine ⟨⟨?_, fun k' => ?_⟩, hsize⟩
    · rw [hgraph, h.graph]
    · rw [KeyedGraph.node?_addNode hk]
      simp only [Function.update_apply, hsize, h.table]

theorem addNode (h : x.InStep g) (k : κ) : (x.addNode k).InStep (g.addNode k) := (h.named k).1

theorem foldl_addNode (h : x.InStep g) (ks : List κ) :
    (ks.foldl Store.addNode x).InStep (ks.foldl KeyedGraph.addNode g) := by
  induction ks generalizing x g with
  | nil => exact h
  | cons k ks ih => exact ih (h.addNode k)

/-- Two nodes are joined without an error. -/
theorem join (h : x.InStep g) {e : Edge} (he : e.source < g.size ∧ e.target < g.size) :
    ∃ x', x.join e = .ok (x', (g.join e he).2) ∧ x'.InStep (g.join e he).1 := by
  have hadd : x.graph.addEdge e = .ok (g.toDigraph.insertEdge e he) := by
    rw [h.graph, Digraph.addEdge_of_lt he]
  by_cases hedge : g.hasEdge e.source e.target = true
  · have hg : g.join e he = (g, false) := if_pos hedge
    rw [Store.join, h.graph, if_pos hedge, hg]
    exact ⟨x, rfl, h⟩
  · have hg : g.join e he = (⟨g.toDigraph.insertEdge e he, g.nodup⟩, true) := if_neg hedge
    rw [Store.join, hadd, h.graph, if_neg hedge, hg]
    refine ⟨⟨g.toDigraph.insertEdge e he, x.table⟩, rfl, rfl, h.table⟩

/-- Two keys are joined without an error. -/
theorem addEdge (h : x.InStep g) (s t : κ) :
    ∃ x', x.addEdge s t = .ok (x', (g.addEdge s t).2) ∧ x'.InStep (g.addEdge s t).1 := by
  obtain ⟨hs, hsource⟩ := h.named s
  obtain ⟨ht, htarget⟩ := hs.named t
  have hends : x.addEdge s t = ((x.addNode s).addNode t).join
      ⟨(g.named s).node, ((g.named s).graph.named t).node⟩ := by
    rw [Store.addEdge, hsource]
    exact congrArg (fun v => ((x.addNode s).addNode t).join ⟨(g.named s).node, v⟩) htarget
  rw [hends]
  exact ht.join _

theorem joinAll [KeyText κ] (h : x.InStep g) (es : List (κ × κ)) :
    Agree (x.joinAll es) (g.joinAll es) := by
  induction es generalizing x g with
  | nil => exact h
  | cons p es ih =>
    obtain ⟨s, t⟩ := p
    by_cases hmem : s ∈ g.keys ∧ t ∈ g.keys
    · obtain ⟨u, hu⟩ := KeyedGraph.exists_node? hmem.1
      obtain ⟨v, hv⟩ := KeyedGraph.exists_node? hmem.2
      obtain ⟨x', hx', hstep⟩ := h.join (e := ⟨u, v⟩)
        ⟨KeyedGraph.lt_size_of_node?_eq_some hu, KeyedGraph.lt_size_of_node?_eq_some hv⟩
      have hcons : x.joinAll ((s, t) :: es) = x'.joinAll es := by
        rw [Store.joinAll, h.table, h.table, hu, hv]
        exact congrArg (· >>= fun joined => joined.1.joinAll es) hx'
      rw [hcons, KeyedGraph.joinAll_cons hu hv]
      exact ih hstep
    · have hcons : x.joinAll ((s, t) :: es) =
          .error (.invalidGraph (.foreignEdge (KeyText.quoted s) (KeyText.quoted t))) := by
        rw [Store.joinAll, h.table, h.table]
        split
        · rename_i u v hu hv
          exact absurd ⟨KeyedGraph.mem_keys_of_node? hu, KeyedGraph.mem_keys_of_node? hv⟩ hmem
        · rfl
      rw [hcons, KeyedGraph.joinAll_cons_of_not_mem hmem]
      rfl

/-- The edges are replaced without an error. -/
theorem withEdges (h : x.InStep g) {es : Array Edge}
    (hes : ∀ e ∈ es, e.source < g.size ∧ e.target < g.size) :
    ∃ x', x.withEdges es.toList = .ok x' ∧ x'.InStep (g.withEdges es hes) := by
  rw [Store.withEdges, h.graph, Digraph.addEdges_ofLabels hes]
  exact ⟨⟨g.toDigraph.withEdges es hes, x.table⟩, rfl, rfl, h.table⟩

/-- All passes succeed, and the result is in step with the acyclic graph. The budget is used up in
the same case. -/
theorem settle {d : Draft κ} (h : x.InStep d.graph) (budget : Nat) :
    (∃ r x', d.settle budget = .ok r ∧ x.settle budget d.arcs = .ok (some x') ∧
      x'.InStep r.graph) ∨
    ∃ stuck, d.settle budget = .error stuck ∧ x.settle budget d.arcs = .ok none := by
  have htopological : x.graph.adjacency.topologicalOrder = d.graph.adjacency.topologicalOrder := by
    rw [h.graph]
  induction budget generalizing x d with
  | zero =>
    cases horder : d.graph.adjacency.topologicalOrder with
    | some order =>
      refine .inl ⟨_, x, Draft.settle_of_topologicalOrder horder 0, ?_, h⟩
      simp only [Store.settle, htopological, horder]
    | none =>
      refine .inr ⟨_, Draft.settle_zero horder, ?_⟩
      simp only [Store.settle, htopological, horder]
  | succ budget ih =>
    cases horder : d.graph.adjacency.topologicalOrder with
    | some order =>
      refine .inl ⟨_, x, Draft.settle_of_topologicalOrder horder _, ?_, h⟩
      simp only [Store.settle, htopological, horder]
    | none =>
      have hpass : d.pass.arcs = x.graph.adjacency.strongComponents.chosen.foldl Arc.turn d.arcs := by
        rw [h.graph]
        rfl
      have hlt : ∀ e ∈ (d.pass.arcs.map Arc.edge).toArray,
          e.source < d.graph.size ∧ e.target < d.graph.size := by
        intro e he
        obtain ⟨a, ha, rfl⟩ := List.mem_map.1 (List.mem_toArray.1 he)
        exact d.pass.arcs_lt a ha
      obtain ⟨x', hx', hstep⟩ := h.withEdges hlt
      have hsettle : x.settle (budget + 1) d.arcs = x'.settle budget d.pass.arcs := by
        simp only [Store.settle, htopological, horder, ← hpass]
        exact congrArg (· >>= fun x => Store.settle budget x d.pass.arcs) hx'
      rw [Draft.settle_succ horder, hsettle]
      exact ih (d := d.pass) hstep (by rw [hstep.graph]; rfl)

/-- The graph is made acyclic, or the limit is used up, in the store as in the graph. -/
theorem breakCycles (h : x.InStep g) (limit : Option Nat) :
    (∃ d x', g.breakCycles limit = .ok d ∧ x.breakCycles limit = .ok (some x') ∧
      x'.InStep d.graph) ∨
    ∃ stuck, g.breakCycles limit = .error stuck ∧ x.breakCycles limit = .ok none := by
  have hdraft : x.InStep (Draft.ofGraph g).graph := by rwa [Draft.graph_ofGraph]
  rw [Store.breakCycles, h.graph]
  exact hdraft.settle (limit.getD g.edgeCount)

end InStep

theorem agree_ofLists [KeyText κ] (ks : List κ) (es : List (κ × κ)) :
    Agree (ofLists ks es) (KeyedGraph.ofLists ks es) :=
  (inStep_empty.foldl_addNode ks).joinAll es

end Store

end FlowBubbles
