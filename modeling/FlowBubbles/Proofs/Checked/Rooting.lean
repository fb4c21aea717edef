import FlowBubbles.Proofs.Checked.Passes
import FlowBubbles.Proofs.Checked.Queries
import FlowBubbles.Proofs.DominatorTree.Rooting

/-!
# The checked tree of an acyclic graph

The super-root has the first number that is no node. It is a node of the view with the super-root
only (`View.Shows.withSuperRoot`), so that its row is never read from the graph below. The root of
each tree is a node of the view and the order lists all nodes, so the construction succeeds, with
the tree or the error of the graph (`Dag.dominatorTree?_stored`).
-/

namespace FlowBubbles

namespace Checked

/-! ## A node in front of the entries -/

namespace View

/-- The view of a graph with one more node, from which one edge runs to each listed entry. -/
def withSuperRoot (w : View) (entries : List Nat) : View where
  size := w.size + 1
  succ v := if v = w.size then some entries else w.succ v
  pred v := (if v = w.size then some [] else w.pred v).map fun us =>
    us ++ if entries.contains v then [w.size] else []

/-- The nodes that no other node precedes. -/
def entries? (w : View) : Option (List Nat) :=
  filter? (fun v => (w.pred v).map (·.all (· == v))) (List.range w.size)

variable {w : View} {a : Adjacency}

theorem Shows.entries? (h : w.Shows a) : w.entries? = some a.entries := by
  rw [View.entries?, h.size]
  exact filter?_eq_some fun v hv => by rw [h.pred v (List.mem_range.1 hv), Option.map_some]

theorem Shows.withSuperRoot (h : w.Shows a) :
    (w.withSuperRoot a.entries).Shows a.withSuperRoot where
  size := congrArg (· + 1) h.size
  succ v hv := by
    have hsucc : a.withSuperRoot.succ v = if v = a.size then a.entries else a.succ v :=
      NodeMap.get_set ..
    rw [hsucc, View.withSuperRoot, h.size]
    by_cases hself : v = a.size
    · simp [hself]
    · have hlt : v < a.size := Nat.lt_of_le_of_ne (Nat.le_of_lt_succ hv) hself
      simp [hself, h.succ v hlt]
  pred v hv := by
    have hpred : a.withSuperRoot.pred v =
        if v ∈ a.entries then a.pred v ++ [a.size] else a.pred v :=
      Adjacency.get_precede a.size a.predecessors a.nodup_entries v
    have hreal : (if v = a.size then some [] else w.pred v) = some (a.pred v) := by
      split
      · rename_i hself
        rw [hself, a.pred_size]
      · rename_i hself
        exact h.pred v (Nat.lt_of_le_of_ne (Nat.le_of_lt_succ hv) hself)
    simp only [hpred, View.withSuperRoot, h.size, hreal, Option.map_some]
    by_cases hentry : v ∈ a.entries <;> simp [hentry]

end View

/-! ## Choosing the root -/

namespace Dag

variable {κ : Type} (x : Dag κ)

/-- The tree below one node of the graph. -/
noncomputable def rootedTree? (root : Nat) : Option Tree := dominatorTree? x.graph.storage.view root x.order

/-- The tree below a super-root that joins the listed entries. -/
noncomputable def joinedTree? (entries : List Nat) : Option Tree := do
  let w := x.graph.storage.view
  let t ← dominatorTree? (w.withSuperRoot entries) w.size (w.size :: x.order)
  return { t with
    superRoot := some w.size
    joined := entries
    unreachable := t.unreachable.filter (· != w.size) }

/-- The tree below the only entry, or below a super-root if there are several entries. -/
noncomputable def naturalTree? : Option (Except Error Tree) := do
  match ← x.graph.storage.view.entries? with
  | [] => return .error (.invalidGraph .noEntry)
  | [entry] => return .ok (← x.rootedTree? entry)
  | entries => return .ok (← x.joinedTree? entries)

/-- The tree for an optional key of the root, unreachable nodes allowed. -/
noncomputable def anyTree? [KeyText κ] (entry : Option κ) : Option (Except Error Tree) :=
  if x.graph.storage.labels.isEmpty then some (.error .emptyGraph)
  else match entry with
    | none => x.naturalTree?
    | some k =>
      match x.graph.table k with
      | none => some (.error (.unknownNode (KeyText.quoted k)))
      | some v => (x.rootedTree? v).map .ok

/-- The dominator tree for an optional key of the root. Unless it is allowed, no node may be
unreachable. The size of the tree is taken down. -/
noncomputable def dominatorTree? [KeyText κ] (entry : Option κ) (allowUnreachable : Bool) :
    Option (Except Error Tree) :=
  andThen (x.anyTree? entry) fun t =>
    if t.unreachable.isEmpty || allowUnreachable then t.size?.map fun _ => .ok t
    else some (.error (.unreachableNodes t.unreachable))

end Dag

end Checked

open Checked

namespace Dag

variable {κ : Type} [DecidableEq κ] (d : Dag κ) {root : Nat}

theorem rootedTree?_stored (hroot : root < d.graph.size) :
    ∃ x, d.stored.rootedTree? root = some x ∧ ∃ n, x.Shows n (d.rootedTree root) := by
  obtain ⟨x, hx, hshows⟩ := dominatorTree?_eq_some d.graph.shows_storage
    (d.isTopological_order.suits hroot)
  exact ⟨x, hx, _, hshows⟩

theorem joinedTree?_stored :
    ∃ x, d.stored.joinedTree? d.graph.adjacency.entries = some x ∧ ∃ n, x.Shows n d.joinedTree := by
  have hw : d.stored.graph.storage.view.Shows d.graph.adjacency := d.graph.shows_storage
  obtain ⟨x, hx, h⟩ := dominatorTree?_eq_some hw.withSuperRoot
    (d.isTopological_order.withSuperRoot.suits (Nat.lt_succ_self _))
  refine ⟨{ x with
    superRoot := some d.graph.adjacency.size
    joined := d.graph.adjacency.entries
    unreachable := x.unreachable.filter (· != d.graph.adjacency.size) }, ?_, _,
    ⟨h.rooted, h.mem_order, h.root, rfl, rfl, h.parent, h.children_size, h.children, h.order, ?_⟩⟩
  · rw [Checked.Dag.joinedTree?, hw.size]
    change (Checked.dominatorTree? _ d.graph.adjacency.size
      (d.graph.adjacency.size :: d.order)).bind _ = _
    rw [hx]
    rfl
  · simp only [h.unreachable]
    rfl

theorem naturalTree?_stored :
    Matches (fun x t => ∃ n, x.Shows n t) d.stored.naturalTree? d.naturalTree := by
  have hw : d.stored.graph.storage.view.Shows d.graph.adjacency := d.graph.shows_storage
  rw [Checked.Dag.naturalTree?, hw.entries?, naturalTree]
  rcases hentries : d.graph.adjacency.entries with _ | ⟨entry, _ | ⟨entry', rest⟩⟩
  · rfl
  · have hentry : entry < d.graph.size := d.graph.adjacency.lt_of_mem_entries (by simp [hentries])
    obtain ⟨x, hx, hshows⟩ := d.rootedTree?_stored hentry
    exact ⟨x, by simp [hx], hshows⟩
  · obtain ⟨x, hx, hshows⟩ := d.joinedTree?_stored
    rw [hentries] at hx
    exact ⟨x, by simp [hx], hshows⟩

variable [KeyText κ]

theorem anyTree?_stored (entry : Option κ) :
    Matches (fun x t => ∃ n, x.Shows n t) (d.stored.anyTree? entry) (d.anyTree entry) := by
  have hempty : d.stored.graph.storage.labels.isEmpty = d.graph.isEmpty := rfl
  unfold Checked.Dag.anyTree? anyTree
  rw [hempty]
  split
  · rfl
  · cases entry with
    | none => exact d.naturalTree?_stored
    | some k =>
      have htable : d.stored.graph.table k = d.graph.node? k := rfl
      simp only [htable]
      cases hk : d.graph.node? k with
      | none => rfl
      | some root =>
        obtain ⟨x, hx, hshows⟩ := d.rootedTree?_stored (KeyedGraph.lt_size_of_node?_eq_some hk)
        exact ⟨x, by simp [hx], hshows⟩

/-- The tree is built, or refused with the same error, and its size can be taken down. -/
theorem dominatorTree?_stored (entry : Option κ) (allow : Bool) :
    Matches (fun x t => ∃ n, x.Shows n t) (d.stored.dominatorTree? entry allow)
      (d.dominatorTree entry allow) := by
  refine (d.anyTree?_stored entry).andThen fun x t _ hshows => ?_
  obtain ⟨n, hshows⟩ := hshows
  rw [hshows.unreachable, hshows.size?]
  split
  · exact ⟨x, rfl, n, hshows⟩
  · rfl

end Dag

end FlowBubbles
