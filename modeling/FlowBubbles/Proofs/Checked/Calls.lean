import FlowBubbles.Proofs.Checked.Keyed
import FlowBubbles.Proofs.Dag.Progress

/-!
# Rows mirror edges

A stored graph is grown in place by calls, some of which are refused. A call writes the labels, the
edges and the rows of a stored graph one after the other. Whatever the calls, the rows tell the same
as the list of edges (`Storage.Mirrors`): each call does to the stored graph what it does to the
graph (`Digraph.run?_storage`), and the rows of a graph are those of its edges.
-/

namespace FlowBubbles

namespace Checked

/-! ## Calls -/

/-- A request to a graph. -/
inductive Call (κ : Type)
  | addNode (label : κ)
  | addEdge (e : Edge)

namespace Storage

variable {κ : Type}

/-- The number of edges out of a node. -/
def outDegree? (x : Storage κ) (v : Nat) : Option Nat := x.outgoing[v]?.map List.length

/-- Adds a node with empty rows. Gives its number and what is stored then. -/
def writeNode (x : Storage κ) (label : κ) : Nat × Storage κ :=
  let v := x.labels.size
  let x := { x with labels := x.labels.push label }
  let x := { x with outgoing := x.outgoing.push [] }
  let x := { x with incoming := x.incoming.push [] }
  (v, x)

/-- Adds an edge, and its position to the rows of its ends. Gives its position, or says which end is
missing, and gives what is stored then. -/
def writeEdge? (x : Storage κ) (e : Edge) : Option (Except Error Nat × Storage κ) :=
  if ¬e.source < x.labels.size then
    some (.error (.invalidGraph (.missingSource e.source x.labels.size)), x)
  else if ¬e.target < x.labels.size then
    some (.error (.invalidGraph (.missingTarget e.target x.labels.size)), x)
  else do
    let i := x.edges.size
    let x := { x with edges := x.edges.push e }
    let x := { x with outgoing := ← append? x.outgoing e.source i }
    let x := { x with incoming := ← append? x.incoming e.target i }
    return (.ok i, x)

end Storage

namespace Call

variable {κ : Type}

/-- The answer to a call, and what is stored after it. -/
def run? (x : Storage κ) : Call κ → Option (Except Error Nat × Storage κ)
  | addNode label => some ((x.writeNode label).map .ok id)
  | addEdge e => x.writeEdge? e

/-- The answers to calls, and what is stored after the last one. -/
def runAll? (x : Storage κ) : List (Call κ) → Option (List (Except Error Nat) × Storage κ)
  | [] => some ([], x)
  | c :: calls => do
    let (answer, x) ← c.run? x
    let (answers, x) ← runAll? x calls
    return (answer :: answers, x)

/-- The label that a call brings along. -/
def label? : Call κ → Option κ
  | addNode label => some label
  | addEdge _ => none

/-- The edges between nodes that are there when the edge is asked for, if there are `n` nodes at the
start. -/
def accepted : Nat → List (Call κ) → List Edge
  | _, [] => []
  | n, addNode _ :: calls => accepted (n + 1) calls
  | n, addEdge e :: calls =>
    if e.source < n ∧ e.target < n then e :: accepted n calls else accepted n calls

/-- The graph after a call. -/
def apply (g : Digraph κ) : Call κ → Digraph κ
  | addNode label => g.addNode label
  | addEdge e =>
    match g.addEdge e with
    | .ok g => g
    | .error _ => g

/-- The answer to a call: the number of the new node or the position of the new edge. -/
def answer (g : Digraph κ) : Call κ → Except Error Nat
  | addNode _ => .ok g.size
  | addEdge e => (g.addEdge e).map fun _ => g.edgeCount

/-- The answers to calls. -/
def answers (g : Digraph κ) : List (Call κ) → List (Except Error Nat)
  | [] => []
  | c :: calls => c.answer g :: answers (c.apply g) calls

end Call

/-! ## Rows and edges -/

/-- Whether the rows of a stored graph tell the same as its edges. Neighbours are listed in the order
of the edges; a pair of nodes is joined as often in the one table of rows as in the other, and in all
as often as there are edges. An edge with a missing end is refused, the source first, and nothing is
written; any other one is put behind the edges that are there. -/
structure Storage.Mirrors {κ : Type} (x : Storage κ) : Prop where
  succ : ∀ v, x.succ? v = if v < x.labels.size then
    some ((x.edges.toList.filter (·.source == v)).map Edge.target) else none
  pred : ∀ v, x.pred? v = if v < x.labels.size then
    some ((x.edges.toList.filter (·.target == v)).map Edge.source) else none
  count : ∀ v w vs ws, x.succ? v = some ws → x.pred? w = some vs → ws.count w = vs.count v
  outDegree : ∀ v, x.outDegree? v = (x.succ? v).map List.length
  inDegree : ∀ v, x.inDegree? v = (x.pred? v).map List.length
  sum_outDegree : ((List.range x.labels.size).mapM x.outDegree?).map List.sum = some x.edges.size
  sum_inDegree : ((List.range x.labels.size).mapM x.inDegree?).map List.sum = some x.edges.size
  hasEdge : ∀ e, x.hasEdge? e = some (decide (e ∈ x.edges))
  missingSource : ∀ e, ¬e.source < x.labels.size → x.writeEdge? e =
    some (.error (.invalidGraph (.missingSource e.source x.labels.size)), x)
  missingTarget : ∀ e, e.source < x.labels.size → ¬e.target < x.labels.size → x.writeEdge? e =
    some (.error (.invalidGraph (.missingTarget e.target x.labels.size)), x)
  accepts : ∀ e, e.source < x.labels.size → e.target < x.labels.size →
    ∃ y, x.writeEdge? e = some (.ok x.edges.size, y) ∧ y.labels = x.labels ∧
      y.edges = x.edges.push e

end Checked

open Checked

section

variable {κ : Type} {x : Storage κ} {g : Digraph κ} {e : Edge} {v : Nat}

/-! ## One call -/

/-- Writing an edge into the stored graph ends like adding it to a copy. -/
theorem Checked.Storage.writeEdge?_eq (x : Storage κ) (e : Edge) :
    x.writeEdge? e = (x.addEdge? e).map fun
      | .ok y => (.ok x.edges.size, y)
      | .error flaw => (.error flaw, x) := by
  rw [writeEdge?, addEdge?]
  by_cases hs : e.source < x.labels.size
  · by_cases ht : e.target < x.labels.size
    · rw [if_neg (not_not.2 hs), if_neg (not_not.2 ht), if_pos hs, if_pos ht]
      cases hout : append? x.outgoing e.source x.edges.size with
      | none => simp [hout]
      | some outgoing => cases hin : append? x.incoming e.target x.edges.size <;> simp [hout, hin]
    · rw [if_neg (not_not.2 hs), if_pos ht, if_pos hs, if_neg ht]
      rfl
  · rw [if_pos hs, if_neg hs]
    rfl

namespace Digraph

theorem addEdge?_storage_eq (g : Digraph κ) (e : Edge) :
    g.storage.addEdge? e = some ((g.addEdge e).map storage) := by
  by_cases hs : e.source < g.size
  · by_cases ht : e.target < g.size
    · rw [addEdge?_storage ⟨hs, ht⟩, addEdge_of_lt ⟨hs, ht⟩]
      rfl
    · rw [addEdge, dif_pos hs, dif_neg ht]
      have hs' : e.source < g.storage.labels.size := hs
      exact (if_pos hs').trans (if_neg ht)
  · rw [addEdge, dif_neg hs]
    exact if_neg hs

/-- A call does the same to the graph as it is stored as to the graph. -/
theorem run?_storage (g : Digraph κ) (c : Call κ) :
    c.run? g.storage = some (c.answer g, (c.apply g).storage) := by
  cases c with
  | addNode label =>
    rw [Call.apply, storage_addNode]
    rfl
  | addEdge e =>
    rw [Call.run?, Storage.writeEdge?_eq, addEdge?_storage_eq, Call.answer, Call.apply]
    cases g.addEdge e <;> rfl

theorem runAll?_storage (g : Digraph κ) (calls : List (Call κ)) :
    Call.runAll? g.storage calls =
      some (Call.answers g calls, (calls.foldl Call.apply g).storage) := by
  induction calls generalizing g with
  | nil => rfl
  | cons c calls ih =>
    rw [Call.runAll?, run?_storage, List.foldl_cons]
    simp only [Option.bind_eq_bind, Option.bind_some, ih]
    rfl

/-! ## What the calls add -/

theorem apply_addEdge_of_lt (he : e.source < g.size ∧ e.target < g.size) :
    Call.apply g (.addEdge e) = g.insertEdge e he := by
  rw [Call.apply, addEdge_of_lt he]

theorem apply_addEdge_of_not_lt (he : ¬(e.source < g.size ∧ e.target < g.size)) :
    Call.apply g (.addEdge e) = g := by
  rw [Call.apply, addEdge]
  by_cases hs : e.source < g.size
  · rw [dif_pos hs, dif_neg fun ht => he ⟨hs, ht⟩]
  · rw [dif_neg hs]

theorem size_addNode (g : Digraph κ) (label : κ) : (g.addNode label).size = g.size + 1 :=
  Array.size_push ..

/-- The labels of a graph are those of the calls, in order. -/
theorem labels_foldl_apply (calls : List (Call κ)) (g : Digraph κ) :
    (calls.foldl Call.apply g).labels.toList =
      g.labels.toList ++ calls.filterMap Call.label? := by
  induction calls generalizing g with
  | nil => exact (List.append_nil _).symm
  | cons c calls ih =>
    rw [List.foldl_cons, ih]
    cases c with
    | addNode label =>
      rw [Call.apply, addNode, Array.toList_push, List.append_assoc]
      rfl
    | addEdge e =>
      by_cases he : e.source < g.size ∧ e.target < g.size
      · rw [apply_addEdge_of_lt he]
        rfl
      · rw [apply_addEdge_of_not_lt he]
        rfl

/-- The edges of a graph are those that the calls were allowed to add, in order. -/
theorem edges_foldl_apply (calls : List (Call κ)) (g : Digraph κ) :
    (calls.foldl Call.apply g).edges.toList =
      g.edges.toList ++ Call.accepted g.size calls := by
  induction calls generalizing g with
  | nil => exact (List.append_nil _).symm
  | cons c calls ih =>
    rw [List.foldl_cons, ih]
    cases c with
    | addNode label =>
      rw [Call.apply, Call.accepted, size_addNode]
      rfl
    | addEdge e =>
      rw [Call.accepted]
      by_cases he : e.source < g.size ∧ e.target < g.size
      · rw [apply_addEdge_of_lt he, if_pos he, insertEdge, Array.toList_push, List.append_assoc]
        rfl
      · rw [apply_addEdge_of_not_lt he, if_neg he]

/-! ## The rows of a graph tell its edges -/

theorem getElem?_rows_eq (key : Edge → Nat) (g : Digraph κ) (v : Nat) :
    (g.rows key)[v]? = if v < g.size then some (positionsOf key g.edges.toList v) else none := by
  split
  · rename_i hv
    exact getElem?_rows hv
  · rename_i hv
    exact Array.getElem?_eq_none (size_rows.trans_le (Nat.le_of_not_lt hv))

/-- What is read through a row. -/
theorem read_rows (key held : Edge → Nat) (g : Digraph κ) (v : Nat) :
    ((g.rows key)[v]?.bind fun row => row.mapM fun i => g.edges[i]?.map held) =
      if v < g.size then some ((g.edges.toList.filter (key · == v)).map held) else none := by
  rw [getElem?_rows_eq]
  split
  · exact mapM_positionsOf key held g.edges v
  · rfl

/-- The length of a row is the number of edges that are read through it. -/
theorem length_rows (key held : Edge → Nat) (g : Digraph κ) (v : Nat) :
    (g.rows key)[v]?.map List.length =
      ((g.rows key)[v]?.bind fun row => row.mapM fun i => g.edges[i]?.map held).map
        List.length := by
  rw [read_rows, getElem?_rows_eq]
  split
  · have hlength := congrArg List.length (map_fst_filter_zipIdx key g.edges.toList v)
    rw [Option.map_some, Option.map_some, List.length_map, ← hlength, positionsOf,
      List.length_map, List.length_map]
  · rfl

/-- The rows hold as many positions as there are edges. -/
theorem sum_length_rows {key : Edge → Nat} (hkey : ∀ e ∈ g.edges.toList, key e < g.size) :
    ((List.range g.size).mapM fun v => (g.rows key)[v]?.map List.length).map List.sum =
      some g.edges.size := by
  have hlength : ∀ v ∈ List.range g.size, (g.rows key)[v]?.map List.length =
      some (g.edges.toList.filter (key · == v)).length := by
    intro v hv
    rw [length_rows key key, read_rows, if_pos (List.mem_range.1 hv), Option.map_some,
      List.length_map]
  rw [mapM_eq_some hlength, Option.map_some]
  exact congrArg some (sum_length_filter hkey)

theorem hasEdge?_storage_eq (g : Digraph κ) (e : Edge) :
    g.storage.hasEdge? e = some (decide (e ∈ g.edges)) := by
  by_cases hs : e.source < g.size
  · rw [hasEdge?_storage hs, hasEdge, Array.contains_eq_mem]
  · have he : e ∉ g.edges := fun he => hs (g.edges_lt e he).1
    rw [decide_eq_false he]
    exact if_neg hs

theorem succ?_storage (g : Digraph κ) (v : Nat) :
    g.storage.succ? v = if v < g.size then some (g.successors v) else none :=
  read_rows Edge.source Edge.target g v

theorem pred?_storage (g : Digraph κ) (v : Nat) :
    g.storage.pred? v = if v < g.size then some (g.predecessors v) else none :=
  read_rows Edge.target Edge.source g v

theorem writeEdge?_storage (g : Digraph κ) (e : Edge) :
    g.storage.writeEdge? e =
      some (Call.answer g (.addEdge e), (Call.apply g (.addEdge e)).storage) :=
  g.run?_storage (.addEdge e)

/-- The rows of a graph mirror its edges. -/
theorem mirrors_storage (g : Digraph κ) : g.storage.Mirrors where
  succ := g.succ?_storage
  pred := g.pred?_storage
  count v w vs ws hws hvs := by
    rw [succ?_storage, Option.ite_none_right_eq_some, Option.some.injEq] at hws
    rw [pred?_storage, Option.ite_none_right_eq_some, Option.some.injEq] at hvs
    rw [← hws.2, ← hvs.2, ← succ_adjacency, ← pred_adjacency, Adjacency.count_pred]
  outDegree := length_rows Edge.source Edge.target g
  inDegree := length_rows Edge.target Edge.source g
  sum_outDegree := sum_length_rows fun e he => (g.edges_lt e (Array.mem_toList_iff.1 he)).1
  sum_inDegree := sum_length_rows fun e he => (g.edges_lt e (Array.mem_toList_iff.1 he)).2
  hasEdge := g.hasEdge?_storage_eq
  missingSource e hs := if_pos hs
  missingTarget e hs ht := by
    rw [Storage.writeEdge?, if_neg (not_not.2 hs)]
    exact if_pos ht
  accepts e hs ht := by
    refine ⟨(g.insertEdge e ⟨hs, ht⟩).storage, ?_, rfl, rfl⟩
    rw [writeEdge?_storage, apply_addEdge_of_lt ⟨hs, ht⟩, Call.answer, addEdge_of_lt ⟨hs, ht⟩]
    rfl

/-- A graph that is grown by any calls, whether or not they are refused, is stored with rows that
mirror its edges. It has the labels that the calls brought along and the edges whose ends were there
when they were asked for, both in order, and what is read off its edges is what the rows tell. -/
theorem rows_mirror_edges (calls : List (Call κ)) :
    let g := calls.foldl Call.apply empty
    Call.runAll? .empty calls = some (Call.answers empty calls, g.storage) ∧
      g.labels.toList = calls.filterMap Call.label? ∧
      g.edges.toList = Call.accepted 0 calls ∧
      g.storage.Mirrors ∧
      g.storage.succ? = g.successors? ∧ g.storage.pred? = g.predecessors? ∧
      g.storage.outDegree? = g.outDegree? ∧ g.storage.inDegree? = g.inDegree? ∧
      ∀ u v, g.storage.hasEdge? ⟨u, v⟩ = some (g.hasEdge u v) := by
  intro g
  have hempty : (empty : Digraph κ).storage = .empty := rfl
  have hmirrors := g.mirrors_storage
  have hsucc : g.storage.succ? = g.successors? := by
    funext v
    rw [succ?_storage, successors?]
    simp only [hasNode, decide_eq_true_eq]
  have hpred : g.storage.pred? = g.predecessors? := by
    funext v
    rw [pred?_storage, predecessors?]
    simp only [hasNode, decide_eq_true_eq]
  refine ⟨hempty ▸ empty.runAll?_storage calls, labels_foldl_apply calls empty,
    edges_foldl_apply calls empty, hmirrors, hsucc, hpred, ?_, ?_, fun u v => ?_⟩
  · funext v
    rw [hmirrors.outDegree, hsucc, outDegree?]
  · funext v
    rw [hmirrors.inDegree, hpred, inDegree?]
  · rw [hasEdge?_storage_eq, hasEdge, Array.contains_eq_mem]

end Digraph

end

end FlowBubbles
