import FlowBubbles.Dag.Basic
import FlowBubbles.DominatorTree.Placement

/-!
# The dominator tree of an acyclic graph

The root of the tree is a node that is asked for, or the only entry of the graph. A graph with
several entries gets a super-root, a node in front of all entries and of nothing else. A node that
the root does not reach is an error unless it is allowed.
-/

namespace FlowBubbles

/-! ## A node in front of the entries -/

namespace Adjacency

variable (a : Adjacency)

/-- Puts the node `s` behind the predecessors of each listed node. -/
def precede (s : Nat) (rows : NodeMap (List Nat)) (nodes : List Nat) : NodeMap (List Nat) :=
  nodes.foldl (fun m v => m.set v (m.get v ++ [s])) rows

theorem get_precede (s : Nat) (rows : NodeMap (List Nat)) {nodes : List Nat} (h : nodes.Nodup)
    (v : Nat) :
    (precede s rows nodes).get v = if v ∈ nodes then rows.get v ++ [s] else rows.get v := by
  induction nodes generalizing rows with
  | nil => simp [precede]
  | cons w rest ih =>
    rw [List.nodup_cons] at h
    rw [precede, List.foldl_cons, ← precede, ih _ h.2, NodeMap.get_set]
    by_cases hv : v = w
    · subst hv; simp [h.1]
    · simp [hv]

theorem nodup_entries : a.entries.Nodup := List.nodup_range.filter _

theorem lt_of_mem_entries {v : Nat} (h : v ∈ a.entries) : v < a.size :=
  List.mem_range.1 (List.mem_filter.1 h).1

/-- No edge leaves a node that is not in the graph. -/
theorem succ_size : a.succ a.size = [] := by
  refine List.eq_nil_iff_forall_not_mem.2 fun v hv => ?_
  exact Nat.lt_irrefl _ (a.lt_of_mem_succ hv).1

/-- No edge enters a node that is not in the graph. -/
theorem pred_size : a.pred a.size = [] := by
  refine List.eq_nil_iff_forall_not_mem.2 fun v hv => ?_
  exact Nat.lt_irrefl _ (a.lt_of_mem_succ (a.mem_pred_iff.1 hv)).2

/-- The graph with one more node, from which one edge runs to each entry. -/
def withSuperRoot : Adjacency where
  size := a.size + 1
  successors := a.successors.set a.size a.entries
  predecessors := precede a.size a.predecessors a.entries
  lt_size u v h := by
    rw [NodeMap.get_set] at h
    split at h
    · have := a.lt_of_mem_entries h
      omega
    · have := a.lt_of_mem_succ h
      omega
  count_eq u v := by
    rw [get_precede _ _ a.nodup_entries, NodeMap.get_set]
    have hcount := a.count_pred u v
    simp only [pred, succ] at hcount
    by_cases hu : u = a.size
    · subst hu
      have hs := a.succ_size
      simp only [succ] at hs
      by_cases hv : v ∈ a.entries
      · simp [hv, List.count_append, hcount, hs, List.Nodup.count a.nodup_entries]
      · simp [hv, hcount, hs, List.count_eq_zero_of_not_mem hv]
    · by_cases hv : v ∈ a.entries
      · simp [hv, hu, List.count_append, hcount, Ne.symm hu]
      · simp [hv, hu, hcount]

end Adjacency

/-! ## Choosing the root -/

namespace Dag

variable {κ : Type} (d : Dag κ)

/-- The tree below a super-root that joins all entries. The super-root has the first free index. -/
def joinedTree : DominatorTree :=
  let a := d.graph.adjacency
  let t := a.withSuperRoot.dominatorTree a.size (a.size :: d.order)
  { t with
    superRoot := some a.size
    joined := a.entries
    unreachable := t.unreachable.filter (· != a.size) }

/-- The tree below one node of the graph. -/
def rootedTree (root : Nat) : DominatorTree := d.graph.adjacency.dominatorTree root d.order

/-- The tree below the only entry, or below a super-root if there are several entries. -/
def naturalTree : Except Error DominatorTree :=
  match d.graph.adjacency.entries with
  | [] => .error (.invalidGraph .noEntry)
  | [entry] => .ok (d.rootedTree entry)
  | _ => .ok d.joinedTree

/-- The tree for an optional key of the root, unreachable nodes allowed. -/
def anyTree [DecidableEq κ] [KeyText κ] (entry : Option κ) : Except Error DominatorTree :=
  if d.graph.isEmpty then .error .emptyGraph
  else match entry with
    | none => d.naturalTree
    | some k =>
      match d.graph.node? k with
      | none => .error (.unknownNode (KeyText.quoted k))
      | some v => .ok (d.rootedTree v)

/-- The dominator tree for an optional key of the root. Unless it is allowed, no node may be
unreachable. -/
def dominatorTree [DecidableEq κ] [KeyText κ] (entry : Option κ) (allowUnreachable : Bool) :
    Except Error DominatorTree := do
  let t ← d.anyTree entry
  if t.unreachable.isEmpty || allowUnreachable then .ok t
  else .error (.unreachableNodes t.unreachable)

end Dag

end FlowBubbles
