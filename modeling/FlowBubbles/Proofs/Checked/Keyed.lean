import FlowBubbles.Proofs.Checked.Storage
import FlowBubbles.Proofs.KeyedGraph.Store

/-!
# Stored graphs with keys

A stored graph is grown by keys through a table of the nodes of its labels. The table finds nodes of
the graph only, so the rows that are read and written are there: the operations on a stored graph
are those on graphs with keys (`KeyedGraph.stored`), with the same errors.
-/

namespace FlowBubbles

namespace Checked

namespace Storage

variable {κ : Type}

/-- Adds edges one after the other, up to the first one with an end that is no node. -/
def addEdges? (x : Storage κ) : List Edge → Option (Except Error (Storage κ))
  | [] => some (.ok x)
  | e :: es => andThen (x.addEdge? e) (addEdges? · es)

/-- Whether some edge runs between two nodes. -/
def hasEdge? (x : Storage κ) (e : Edge) : Option Bool :=
  if e.source < x.labels.size then (x.succ? e.source).map (·.contains e.target) else some false

end Storage

/-- A stored graph next to a table of the nodes of its labels. -/
structure Keyed (κ : Type) where
  storage : Storage κ
  table : κ → Option Nat

namespace Keyed

variable {κ : Type}

/-- The graph without nodes, and the table without keys. -/
def empty : Keyed κ := ⟨.empty, fun _ => none⟩

/-- Joins two nodes, and says whether they were not joined before. -/
def join? (x : Keyed κ) (e : Edge) : Option (Except Error (Keyed κ × Bool)) := do
  if ← x.storage.hasEdge? e then return .ok (x, false)
  else andThen (x.storage.addEdge? e) fun storage => some (.ok (⟨storage, x.table⟩, true))

/-- Builds the graph anew with other edges, and keeps the table. -/
def withEdges? (x : Keyed κ) (es : List Edge) : Option (Except Error (Keyed κ)) :=
  andThen ((x.storage.labels.toList.foldl Storage.addNode .empty).addEdges? es) fun storage =>
    some (.ok ⟨storage, x.table⟩)

variable [DecidableEq κ]

/-- The node of a key, which is put into the graph and into the table if it is not there. -/
def named (x : Keyed κ) (k : κ) : Keyed κ × Nat :=
  match x.table k with
  | some v => (x, v)
  | none =>
    let v := x.storage.labels.size
    (⟨x.storage.addNode k, Function.update x.table k (some v)⟩, v)

/-- Adds a node, if its key is new. -/
def addNode (x : Keyed κ) (k : κ) : Keyed κ := (x.named k).1

/-- Joins the nodes of two keys, which are added if they are new, the source first. -/
def addEdge? (x : Keyed κ) (source target : κ) : Option (Except Error (Keyed κ × Bool)) :=
  let s := x.named source
  let t := s.1.named target
  t.1.join? ⟨s.2, t.2⟩

/-- Joins the pairs of keys in order. Refuses the first pair with a key that is not there. -/
def joinAll? [KeyText κ] (x : Keyed κ) : List (κ × κ) → Option (Except Error (Keyed κ))
  | [] => some (.ok x)
  | (source, target) :: rest =>
    match x.table source, x.table target with
    | some s, some t => andThen (x.join? ⟨s, t⟩) fun joined => joined.1.joinAll? rest
    | _, _ =>
      some (.error (.invalidGraph (.foreignEdge (KeyText.quoted source) (KeyText.quoted target))))

/-- The graph of a list of keys and a list of pairs of them. -/
def ofLists? [KeyText κ] (keys : List κ) (edges : List (κ × κ)) : Option (Except Error (Keyed κ)) :=
  (keys.foldl addNode empty).joinAll? edges

end Keyed

end Checked

open Checked

/-! ## Stored graphs -/

namespace Digraph

variable {κ : Type} {g : Digraph κ} {e : Edge}

theorem hasEdge?_storage (he : e.source < g.size) :
    g.storage.hasEdge? e = some (g.hasEdge e.source e.target) := by
  have hsource : e.source < g.storage.labels.size := he
  have hsucc : g.storage.succ? e.source = some (g.adjacency.succ e.source) :=
    g.shows_storage.succ e.source he
  rw [Storage.hasEdge?, if_pos hsource, hsucc, Option.map_some, Option.some.injEq, Bool.eq_iff_iff,
    List.contains_iff_mem, mem_succ_adjacency, hasEdge, Array.contains_iff_mem, Array.mem_toList_iff]

theorem storage_foldl_addNode (labels : List κ) (g : Digraph κ) :
    (labels.foldl addNode g).storage = labels.foldl Storage.addNode g.storage := by
  induction labels generalizing g with
  | nil => rfl
  | cons k labels ih => rw [List.foldl_cons, ih, storage_addNode, List.foldl_cons]

/-- Edges between nodes of the graph are all added. -/
theorem addEdges?_storage {es : List Edge}
    (h : ∀ e ∈ es, e.source < g.size ∧ e.target < g.size) :
    g.storage.addEdges? es = some ((g.addEdges es).map storage) := by
  induction es generalizing g with
  | nil => rfl
  | cons e es ih =>
    obtain ⟨he, hrest⟩ := List.forall_mem_cons.1 h
    rw [Storage.addEdges?, addEdge?_storage he, andThen_ok, ih (g := g.insertEdge e he) hrest,
      addEdges, addEdges, List.foldlM_cons, addEdge_of_lt he]
    rfl

end Digraph

namespace KeyedGraph

variable {κ : Type} {g : KeyedGraph κ} {e : Edge}

/-- The edges are replaced without an error. -/
theorem addEdges?_withEdges {es : Array Edge}
    (hes : ∀ e ∈ es, e.source < g.size ∧ e.target < g.size) :
    (g.storage.labels.toList.foldl Storage.addNode .empty).addEdges? es.toList =
      some (.ok (g.withEdges es hes).storage) := by
  have hlabels : g.storage.labels.toList.foldl Storage.addNode .empty =
      (Digraph.ofLabels g.labels.toList).storage :=
    (Digraph.storage_foldl_addNode g.labels.toList .empty).symm
  have hsize : (Digraph.ofLabels g.labels.toList).size = g.size := by
    rw [Digraph.size, ← Array.length_toList, Digraph.ofLabels,
      Digraph.toList_labels_foldl_addNode]
    exact Array.length_toList
  rw [hlabels, Digraph.addEdges?_storage, Digraph.addEdges_ofLabels hes]
  · rfl
  · intro e he
    rw [hsize]
    exact hes e (Array.mem_toList_iff.1 he)

variable [DecidableEq κ]

/-- A graph with keys as it is stored. -/
def stored (g : KeyedGraph κ) : Keyed κ := ⟨g.storage, g.node?⟩

theorem withEdges?_stored {es : Array Edge}
    (hes : ∀ e ∈ es, e.source < g.size ∧ e.target < g.size) :
    g.stored.withEdges? es.toList = some (.ok (g.withEdges es hes).stored) := by
  rw [Keyed.withEdges?, stored, addEdges?_withEdges hes]
  rfl

theorem stored_empty : (empty : KeyedGraph κ).stored = .empty := by
  have htable : (empty : KeyedGraph κ).node? = fun _ => none := by
    funext k
    exact node?_eq_none_iff.2 (by simp [keys, empty, Digraph.empty])
  rw [stored, htable]
  rfl

theorem named_stored (g : KeyedGraph κ) (k : κ) :
    g.stored.named k = ((g.addNode k).stored, (g.named k).node) := by
  cases hk : g.node? k with
  | some v =>
    obtain ⟨hnode, hgraph⟩ := named_of_some hk
    have hfound : g.stored.table k = some v := hk
    have hx : g.stored.named k = (g.stored, v) := by rw [Keyed.named, hfound]
    rw [hx, hgraph, hnode]
  | none =>
    obtain ⟨hnode, hgraph⟩ := named_of_none hk
    have hmissing : g.stored.table k = none := hk
    have hx : g.stored.named k =
        (⟨g.storage.addNode k, Function.update g.node? k (some g.size)⟩, g.size) := by
      rw [Keyed.named, hmissing]
      rfl
    have htable : (g.addNode k).node? = Function.update g.node? k (some g.size) := by
      funext k'
      rw [node?_addNode hk, Function.update_apply]
    rw [hx, hnode, stored, htable, hgraph, Digraph.storage_addNode]

theorem foldl_addNode_stored (ks : List κ) (g : KeyedGraph κ) :
    ks.foldl Keyed.addNode g.stored = (ks.foldl addNode g).stored := by
  induction ks generalizing g with
  | nil => rfl
  | cons k ks ih => rw [List.foldl_cons, Keyed.addNode, named_stored, ih, List.foldl_cons]

/-- Two nodes are joined without an error. -/
theorem join?_stored (he : e.source < g.size ∧ e.target < g.size) :
    g.stored.join? e = some (.ok ((g.join e he).1.stored, (g.join e he).2)) := by
  have hedge : g.stored.storage.hasEdge? e = some (g.hasEdge e.source e.target) :=
    Digraph.hasEdge?_storage he.1
  have hadd : g.stored.storage.addEdge? e = some (.ok (g.toDigraph.insertEdge e he).storage) :=
    Digraph.addEdge?_storage he
  simp only [Keyed.join?, hedge, hadd, Option.bind_eq_bind, Option.bind_some, andThen_ok, join]
  split <;> rfl

/-- Two keys are joined without an error. -/
theorem addEdge?_stored (g : KeyedGraph κ) (s t : κ) :
    g.stored.addEdge? s t = some (.ok ((g.addEdge s t).1.stored, (g.addEdge s t).2)) := by
  rw [Keyed.addEdge?, named_stored]
  simp only [named_stored]
  exact join?_stored _

theorem joinAll?_stored [KeyText κ] (g : KeyedGraph κ) (es : List (κ × κ)) :
    g.stored.joinAll? es = some ((g.joinAll es).map stored) := by
  induction es generalizing g with
  | nil => rfl
  | cons p es ih =>
    obtain ⟨s, t⟩ := p
    by_cases hmem : s ∈ g.keys ∧ t ∈ g.keys
    · obtain ⟨u, hu⟩ := exists_node? hmem.1
      obtain ⟨v, hv⟩ := exists_node? hmem.2
      have hjoin := join?_stored (e := ⟨u, v⟩)
        ⟨lt_size_of_node?_eq_some hu, lt_size_of_node?_eq_some hv⟩
      simp only [Keyed.joinAll?, stored, hu, hv] at hjoin ⊢
      rw [hjoin, andThen_ok, joinAll_cons hu hv]
      exact ih _
    · rw [joinAll_cons_of_not_mem hmem, Keyed.joinAll?]
      split
      · rename_i u v hu hv
        exact absurd ⟨mem_keys_of_node? hu, mem_keys_of_node? hv⟩ hmem
      · rfl

theorem ofLists?_eq_some [KeyText κ] (ks : List κ) (es : List (κ × κ)) :
    Keyed.ofLists? ks es = some ((ofLists ks es).map stored) := by
  rw [Keyed.ofLists?, ← stored_empty, foldl_addNode_stored, joinAll?_stored]
  rfl

end KeyedGraph

end FlowBubbles
