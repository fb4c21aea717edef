import FlowBubbles.Digraph.Adjacency
import FlowBubbles.Proofs.Checked.Basic

/-!
# How a graph is stored

Next to its labels and edges a stored graph has two tables of rows: for every node the positions of
the edges that leave it, and of those that enter it. Neighbours are read through the rows, so that
each edge is a checked access. The rows of a graph are determined by its edges (`Digraph.storage`),
and adding nodes and edges keeps them up to date (`Digraph.storage_addNode`,
`Digraph.addEdge?_storage`).
-/

namespace FlowBubbles.Checked

/-- What the algorithms see of a graph: its size and the neighbours of its nodes. -/
structure View where
  size : Nat
  succ : Nat → Option (List Nat)
  pred : Nat → Option (List Nat)

/-- Whether a view shows the rows of a graph: all nodes of it have neighbours to read. -/
structure View.Shows (w : View) (a : Adjacency) : Prop where
  size : w.size = a.size
  succ : ∀ v < a.size, w.succ v = some (a.succ v)
  pred : ∀ v < a.size, w.pred v = some (a.pred v)

/-- A graph with the rows of its edges. -/
structure Storage (κ : Type) where
  labels : Array κ
  edges : Array Edge
  outgoing : Array (List Nat)
  incoming : Array (List Nat)

namespace Storage

variable {κ : Type}

/-- The graph without nodes. -/
def empty : Storage κ := ⟨#[], #[], #[], #[]⟩

/-- Puts the position of an edge at the end of a row. -/
def append? (rows : Array (List Nat)) (v i : Nat) : Option (Array (List Nat)) :=
  if h : v < rows.size then some (rows.set v (rows[v] ++ [i]) h) else none

/-- Adds a node with empty rows. -/
def addNode (x : Storage κ) (label : κ) : Storage κ :=
  ⟨x.labels.push label, x.edges, x.outgoing.push [], x.incoming.push []⟩

/-- Adds an edge to the rows of its ends, or says which end is missing. -/
def addEdge? (x : Storage κ) (e : Edge) : Option (Except Error (Storage κ)) :=
  if e.source < x.labels.size then
    if e.target < x.labels.size then do
      let outgoing ← append? x.outgoing e.source x.edges.size
      let incoming ← append? x.incoming e.target x.edges.size
      return .ok ⟨x.labels, x.edges.push e, outgoing, incoming⟩
    else some (.error (.invalidGraph (.missingTarget e.target x.labels.size)))
  else some (.error (.invalidGraph (.missingSource e.source x.labels.size)))

/-- The nodes that the edges out of a node lead to. -/
def succ? (x : Storage κ) (v : Nat) : Option (List Nat) := do
  let row ← x.outgoing[v]?
  row.mapM fun i => x.edges[i]?.map Edge.target

/-- The nodes that the edges into a node come from. -/
def pred? (x : Storage κ) (v : Nat) : Option (List Nat) := do
  let row ← x.incoming[v]?
  row.mapM fun i => x.edges[i]?.map Edge.source

/-- The number of edges into a node. -/
def inDegree? (x : Storage κ) (v : Nat) : Option Nat := x.incoming[v]?.map List.length

/-- What the algorithms see of a stored graph. -/
def view (x : Storage κ) : View := ⟨x.labels.size, x.succ?, x.pred?⟩

end Storage

end Checked

open Checked

/-! ## The rows of a graph -/

namespace Digraph

variable {κ : Type} {g : Digraph κ} {key held : Edge → Nat} {v : Nat} {e : Edge}

/-- The positions of the edges with the key `v`. -/
def positionsOf (key : Edge → Nat) (es : List Edge) (v : Nat) : List Nat :=
  (es.zipIdx.filter (key ·.1 == v)).map Prod.snd

/-- The rows of a graph. -/
def rows (key : Edge → Nat) (g : Digraph κ) : Array (List Nat) :=
  ((List.range g.size).map (positionsOf key g.edges.toList)).toArray

/-- A graph as it is stored. -/
def storage (g : Digraph κ) : Storage κ :=
  ⟨g.labels, g.edges, g.rows Edge.source, g.rows Edge.target⟩

theorem size_rows : (g.rows key).size = g.size := by
  simp [rows]

theorem getElem_rows (hv : v < (g.rows key).size) :
    (g.rows key)[v] = positionsOf key g.edges.toList v := by
  simp [rows]

theorem getElem?_rows (hv : v < g.size) :
    (g.rows key)[v]? = some (positionsOf key g.edges.toList v) := by
  rw [Array.getElem?_eq_getElem (size_rows ▸ hv), getElem_rows]

/-- The edges at the positions in a row are the edges with its key. -/
theorem map_fst_filter_zipIdx (key : Edge → Nat) (es : List Edge) (v : Nat) :
    (es.zipIdx.filter (key ·.1 == v)).map Prod.fst = es.filter (key · == v) := by
  have hfst : es.zipIdx.map Prod.fst = es := List.zipIdx_map_fst 0 es
  calc (es.zipIdx.filter (key ·.1 == v)).map Prod.fst
      = (es.zipIdx.map Prod.fst).filter (key · == v) := by
        rw [List.filter_map]
        rfl
    _ = es.filter (key · == v) := by rw [hfst]

/-- Through its row the neighbours of a node are read. -/
theorem mapM_positionsOf (key held : Edge → Nat) (edges : Array Edge) (v : Nat) :
    (positionsOf key edges.toList v).mapM (fun i => edges[i]?.map held) =
      some ((edges.toList.filter (key · == v)).map held) := by
  have hread : ∀ p ∈ edges.toList.zipIdx.filter (key ·.1 == v),
      edges[p.2]?.map held = some (held p.1) := by
    intro p hp
    have hget := List.mem_zipIdx_iff_getElem?.1 (List.mem_filter.1 hp).1
    rw [Array.getElem?_toList] at hget
    rw [hget]
    rfl
  calc (positionsOf key edges.toList v).mapM (fun i => edges[i]?.map held)
      = (edges.toList.zipIdx.filter (key ·.1 == v)).mapM fun p => edges[p.2]?.map held := by
        rw [positionsOf, List.mapM_map]
        rfl
    _ = some ((edges.toList.zipIdx.filter (key ·.1 == v)).map fun p => held p.1) :=
        mapM_eq_some hread
    _ = some ((edges.toList.filter (key · == v)).map held) := by
        rw [← map_fst_filter_zipIdx, List.map_map]
        rfl

/-- The stored graph shows the neighbours of all nodes. -/
theorem shows_storage (g : Digraph κ) : g.storage.view.Shows g.adjacency where
  size := rfl
  succ v hv := by
    rw [succ_adjacency]
    change (g.rows Edge.source)[v]? >>= _ = _
    rw [getElem?_rows hv]
    exact mapM_positionsOf Edge.source Edge.target g.edges v
  pred v hv := by
    rw [pred_adjacency]
    change (g.rows Edge.target)[v]? >>= _ = _
    rw [getElem?_rows hv]
    exact mapM_positionsOf Edge.target Edge.source g.edges v

theorem inDegree?_storage (hv : v < g.size) :
    g.storage.inDegree? v = some (g.adjacency.pred v).length := by
  have hlength : (positionsOf Edge.target g.edges.toList v).length =
      (g.adjacency.pred v).length := by
    rw [pred_adjacency, predecessors, List.length_map, ← map_fst_filter_zipIdx, List.length_map,
      positionsOf, List.length_map]
  change (g.rows Edge.target)[v]?.map List.length = _
  rw [getElem?_rows hv, Option.map_some, hlength]

/-! ## Adding nodes and edges -/

theorem positionsOf_append_singleton (key : Edge → Nat) (es : List Edge) (e : Edge) (v : Nat) :
    positionsOf key (es ++ [e]) v =
      positionsOf key es v ++ if key e = v then [es.length] else [] := by
  rw [positionsOf, List.zipIdx_append, List.filter_append, List.map_append, ← positionsOf]
  by_cases hv : key e = v <;> simp [hv]

theorem positionsOf_eq_nil {es : List Edge} (h : ∀ e ∈ es, key e ≠ v) :
    positionsOf key es v = [] := by
  rw [positionsOf, List.map_eq_nil_iff, List.filter_eq_nil_iff]
  intro p hp
  simpa using h p.1 (List.fst_mem_of_mem_zipIdx hp)

/-- A new node has an empty row. -/
theorem rows_addNode (h : ∀ e ∈ g.edges.toList, key e < g.size) (label : κ) :
    (g.addNode label).rows key = (g.rows key).push [] := by
  have hsize : (g.addNode label).size = g.size + 1 := Array.size_push ..
  have hnil : positionsOf key g.edges.toList g.size = [] :=
    positionsOf_eq_nil fun e he => Nat.ne_of_lt (h e he)
  rw [rows, hsize, List.range_succ, List.map_append, List.map_singleton,
    show (g.addNode label).edges = g.edges from rfl, hnil, rows, List.push_toArray]

theorem storage_addNode (g : Digraph κ) (label : κ) :
    (g.addNode label).storage = g.storage.addNode label := by
  have hlt : ∀ e ∈ g.edges.toList, e.source < g.size ∧ e.target < g.size := fun e he =>
    g.edges_lt e (Array.mem_toList_iff.1 he)
  rw [storage, rows_addNode fun e he => (hlt e he).1, rows_addNode fun e he => (hlt e he).2]
  rfl

/-- The position of a new edge is put at the end of the row of its key. -/
theorem append?_rows (hv : key e < g.size) (he : e.source < g.size ∧ e.target < g.size) :
    Storage.append? (g.rows key) (key e) g.edges.size = some ((g.insertEdge e he).rows key) := by
  have hlt : key e < (g.rows key).size := size_rows ▸ hv
  rw [Storage.append?, dif_pos hlt]
  refine congrArg some (Array.ext ?_ fun v hold hnew => ?_)
  · rw [Array.size_set, size_rows, size_rows]
    rfl
  · have hpush : (g.insertEdge e he).edges.toList = g.edges.toList ++ [e] := Array.toList_push
    rw [Array.getElem_set, getElem_rows hnew, hpush, positionsOf_append_singleton]
    split
    · rename_i heq
      rw [getElem_rows, heq, Array.length_toList]
    · rw [getElem_rows, List.append_nil]

/-- An edge between two nodes is added without an error. -/
theorem addEdge?_storage (he : e.source < g.size ∧ e.target < g.size) :
    g.storage.addEdge? e = some (.ok (g.insertEdge e he).storage) := by
  have hsource : e.source < g.storage.labels.size := he.1
  have htarget : e.target < g.storage.labels.size := he.2
  have hout : Storage.append? g.storage.outgoing e.source g.storage.edges.size =
      some ((g.insertEdge e he).rows Edge.source) := append?_rows he.1 he
  have hin : Storage.append? g.storage.incoming e.target g.storage.edges.size =
      some ((g.insertEdge e he).rows Edge.target) := append?_rows he.2 he
  rw [Storage.addEdge?, if_pos hsource, if_pos htarget, hout, hin]
  rfl

end Digraph

end FlowBubbles
