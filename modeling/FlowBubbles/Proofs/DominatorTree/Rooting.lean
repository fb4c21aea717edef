import FlowBubbles.DominatorTree.Rooting
import FlowBubbles.Proofs.Dag.CycleBreaking
import FlowBubbles.Proofs.DominatorTree.Agreement

/-!
# The tree of an acyclic graph

The tree has a node of the graph as its root, or a super-root in front of several entries
(`Dag.tree_cases`). In both cases it agrees with the edges of the graph and those of the super-root
(`Dag.agreesWith_of_dominatorTree`). The super-root in front of a topological order gives such an
order of the graph with the super-root, and the entries reach all nodes, so that none is missing.
Ranks grow from immediate dominators to the nodes (`Dag.idxOf_lt_of_immediatelyDominates`).
-/

namespace FlowBubbles

/-! ## A node in front of the entries -/

namespace Adjacency

variable {a : Adjacency} {u v : Nat} {order : List Nat}

theorem mem_succ_withSuperRoot :
    v ∈ a.withSuperRoot.succ u ↔ v ∈ a.succ u ∨ u = a.size ∧ v ∈ a.entries := by
  have hsucc : a.withSuperRoot.succ u = if u = a.size then a.entries else a.succ u :=
    NodeMap.get_set ..
  rw [hsucc]
  by_cases hu : u = a.size
  · subst hu
    simp [a.succ_size]
  · simp [hu]

/-- The super-root may stand in front of any topological order. -/
theorem IsTopological.withSuperRoot (h : a.IsTopological order) :
    a.withSuperRoot.IsTopological (a.size :: order) := by
  constructor
  · have hnodes : a.withSuperRoot.nodes = a.nodes ++ [a.size] := List.range_succ
    rw [hnodes]
    exact (h.perm.cons a.size).trans (List.perm_append_singleton a.size a.nodes).symm
  · intro u v hedge hne
    rcases mem_succ_withSuperRoot.1 hedge with hedge | ⟨rfl, hv⟩
    · have hlt := a.lt_of_mem_succ hedge
      rw [List.idxOf_cons_ne _ (by omega), List.idxOf_cons_ne _ (by omega)]
      exact Nat.succ_lt_succ (h.forward u v hedge hne)
    · rw [List.idxOf_cons_self, List.idxOf_cons_ne _ hne]
      exact Nat.succ_pos _

/-- In an acyclic graph an entry reaches every node. -/
theorem Acyclic.exists_entry (h : a.Acyclic) (hv : v < a.size) :
    ∃ u ∈ a.entries, a.Reaches u v := by
  obtain ⟨u, ⟨hu, hreach⟩, hfirst⟩ :=
    h.exists_first (S := fun u => u < a.size ∧ a.Reaches u v) ⟨hv, .refl v⟩
  refine ⟨u, mem_entries_iff.2 ⟨hu, fun x hedge => hfirst x ?_ hedge⟩, hreach⟩
  exact ⟨(a.lt_of_mem_succ hedge).1, (Reaches.single hedge).trans hreach⟩

end Adjacency

/-- The entries are the nodes without a predecessor other than themselves. -/
theorem Digraph.mem_entries_adjacency {κ : Type} {g : Digraph κ} {v : Nat} :
    v ∈ g.adjacency.entries ↔ v < g.size ∧ ∀ e ∈ g.edges, e.target = v → e.source = v := by
  rw [Adjacency.mem_entries_iff]
  refine and_congr_right fun _ => ⟨fun h e he ht => ?_, fun h u hedge => ?_⟩
  · refine h e.source (mem_succ_adjacency.2 ?_)
    rw [← ht]
    exact Array.mem_toList_iff.2 he
  · exact h ⟨u, v⟩ (Array.mem_toList_iff.1 (mem_succ_adjacency.1 hedge)) rfl

/-! ## The two kinds of trees -/

namespace Dag

variable {κ : Type} (d : Dag κ)

/-- Whether an edge of the graph leads from `u` to `v`, or `u` is the super-root of the tree and `v`
an entry of the graph. -/
def Leads (t : DominatorTree) (u v : Nat) : Prop :=
  v ∈ d.graph.adjacency.succ u ∨ t.superRoot = some u ∧ v ∈ d.graph.adjacency.entries

theorem leads_rootedTree (root : Nat) :
    d.Leads (d.rootedTree root) = fun u v => v ∈ d.graph.adjacency.succ u := by
  funext u v
  simp [Leads, rootedTree, Adjacency.dominatorTree]

theorem leads_joinedTree :
    d.Leads d.joinedTree = fun u v => v ∈ d.graph.adjacency.withSuperRoot.succ u := by
  funext u v
  rw [Adjacency.mem_succ_withSuperRoot, Leads, joinedTree, Option.some.injEq, eq_comm (a := u)]

variable {root : Nat} {t : DominatorTree}

/-- The tree below a node of the graph agrees with the edges of the graph. -/
theorem agreesWith_rootedTree (hroot : root < d.graph.size) :
    (d.rootedTree root).AgreesWith (d.Leads (d.rootedTree root)) := by
  rw [leads_rootedTree]
  exact d.isTopological_order.agreesWith hroot

/-- The tree below the super-root agrees with the edges of the graph and those of the super-root. -/
theorem agreesWith_joinedTree : d.joinedTree.AgreesWith (d.Leads d.joinedTree) := by
  have h := d.isTopological_order.withSuperRoot.agreesWith (Nat.lt_succ_self _)
  rw [leads_joinedTree]
  exact h.congr rfl rfl rfl

theorem pairwise_nodes_rootedTree (hroot : root < d.graph.size) :
    (d.rootedTree root).nodes.Pairwise fun u v => d.order.idxOf u < d.order.idxOf v :=
  (d.isTopological_order.suits hroot).pairwise_order.filter _

theorem pairwise_nodes_joinedTree :
    d.joinedTree.nodes.Pairwise fun u v => d.order.idxOf u < d.order.idxOf v := by
  have htop := d.isTopological_order.withSuperRoot
  have hsorted := (htop.suits (Nat.lt_succ_self _)).pairwise_order.filter
    (!d.joinedTree.isSuperRoot ·)
  refine hsorted.imp_of_mem fun {u v} hu hv hlt => ?_
  have hne : ∀ {x}, x ∈ d.joinedTree.nodes → d.graph.adjacency.size ≠ x := by
    intro x hx
    simpa [joinedTree, DominatorTree.isSuperRoot] using (List.mem_filter.1 hx).2
  rw [List.idxOf_cons_ne _ (hne hu), List.idxOf_cons_ne _ (hne hv)] at hlt
  exact Nat.lt_of_succ_lt_succ hlt

/-- What a node reaches along the edges of the graph it reaches with those of the super-root. -/
theorem reflTransGen_leads {u v : Nat} (h : d.graph.adjacency.Reaches u v) :
    Relation.ReflTransGen (d.Leads t) u v :=
  Relation.ReflTransGen.mono (fun _ _ hedge => Or.inl hedge) _ _ h

/-- The super-root reaches every node. -/
theorem contains_joinedTree_iff {v : Nat} :
    d.joinedTree.contains v = true ↔ v ≤ d.graph.size := by
  have hagrees := d.agreesWith_joinedTree
  constructor
  · intro hv
    rw [leads_joinedTree] at hagrees
    have hreach : d.graph.adjacency.withSuperRoot.Reaches d.graph.size v :=
      (hagrees.contains_iff v).1 hv
    exact Nat.le_of_lt_succ (hreach.lt_size (Nat.lt_succ_self _))
  · intro hv
    rw [hagrees.contains_iff]
    rcases Nat.lt_or_eq_of_le hv with hv | rfl
    · obtain ⟨u, hu, hreach⟩ := d.isTopological_order.acyclic.exists_entry hv
      have hfirst : d.Leads d.joinedTree d.graph.size u := .inr ⟨rfl, hu⟩
      exact .head hfirst (d.reflTransGen_leads hreach)
    · exact .refl

theorem unreachable_joinedTree : d.joinedTree.unreachable = [] := by
  refine List.eq_nil_iff_forall_not_mem.2 fun v hv => ?_
  obtain ⟨hmem, -⟩ := List.mem_filter.1 hv
  obtain ⟨hlt, hcontains⟩ := Adjacency.mem_unreachable_iff.1 hmem
  exact hcontains (d.contains_joinedTree_iff.2 (Nat.le_of_lt_succ hlt))

theorem mem_unreachable_rootedTree (hroot : root < d.graph.size) {v : Nat} :
    v ∈ (d.rootedTree root).unreachable ↔
      v < d.graph.size ∧ ¬d.graph.adjacency.Reaches root v := by
  have hagrees := d.agreesWith_rootedTree hroot
  rw [leads_rootedTree] at hagrees
  exact Adjacency.mem_unreachable_iff.trans (and_congr_right fun _ =>
    not_congr (hagrees.contains_iff v))

/-! ## Choosing the root -/

variable [DecidableEq κ] [KeyText κ] {entry : Option κ} {k : κ} {allow : Bool}

/-- A tree is built if there is one without regard to unreachable nodes, and none of these is in
the way. -/
theorem dominatorTree_eq_ok_iff :
    d.dominatorTree entry allow = .ok t ↔
      d.anyTree entry = .ok t ∧ (t.unreachable = [] ∨ allow = true) := by
  rw [dominatorTree]
  cases d.anyTree entry with
  | error e => simp [bind, Except.bind]
  | ok t' =>
    simp only [bind, Except.bind, Except.ok.injEq]
    split
    · rename_i hallow
      rw [Except.ok.injEq]
      constructor
      · rintro rfl
        simpa using hallow
      · exact And.left
    · rename_i hallow
      simp only [reduceCtorEq, false_iff]
      rintro ⟨rfl, hallow'⟩
      exact hallow (by simpa using hallow')

theorem size_pos_of_anyTree (h : d.anyTree entry = .ok t) : 0 < d.graph.size := by
  unfold anyTree at h
  split at h
  · cases h
  · rename_i hempty
    simpa [Digraph.isEmpty, Nat.pos_iff_ne_zero] using hempty

/-- With a key the tree has the node of this key as its root. -/
theorem anyTree_some (hk : d.graph.node? k = some root) :
    d.anyTree (some k) = .ok (d.rootedTree root) := by
  have hroot := KeyedGraph.lt_size_of_node?_eq_some hk
  have hempty : d.graph.isEmpty = false := by
    simp [Digraph.isEmpty, Nat.ne_of_gt (Nat.zero_lt_of_lt hroot)]
  simp [anyTree, hempty, hk]

theorem anyTree_none (hpos : 0 < d.graph.size) : d.anyTree none = d.naturalTree := by
  have hempty : d.graph.isEmpty = false := by simp [Digraph.isEmpty, Nat.ne_of_gt hpos]
  simp [anyTree, hempty]

omit [DecidableEq κ] [KeyText κ] in
/-- There is always an entry, which is the root if it is the only one. -/
theorem naturalTree_cases (hpos : 0 < d.graph.size) :
    (∃ root, d.graph.adjacency.entries = [root] ∧ d.naturalTree = .ok (d.rootedTree root)) ∨
      1 < d.graph.adjacency.entries.length ∧ d.naturalTree = .ok d.joinedTree := by
  obtain ⟨u, hu, -⟩ := d.isTopological_order.acyclic.exists_entry hpos
  match hentries : d.graph.adjacency.entries with
  | [] => simp [hentries] at hu
  | [root] => exact .inl ⟨root, rfl, by simp [naturalTree, hentries]⟩
  | _ :: _ :: _ => exact .inr ⟨by simp, by simp [naturalTree, hentries]⟩

/-- A tree has a node of the graph as its root, or a super-root in front of several entries. -/
theorem tree_cases (h : d.dominatorTree entry allow = .ok t) :
    (∃ root < d.graph.size, t = d.rootedTree root) ∨
      1 < d.graph.adjacency.entries.length ∧ t = d.joinedTree := by
  have hany := (d.dominatorTree_eq_ok_iff.1 h).1
  have hpos := d.size_pos_of_anyTree hany
  cases entry with
  | none =>
    rw [d.anyTree_none hpos] at hany
    rcases d.naturalTree_cases hpos with ⟨root, hentries, htree⟩ | ⟨hseveral, htree⟩
    · have hroot : root < d.graph.size := d.graph.adjacency.lt_of_mem_entries (by simp [hentries])
      exact .inl ⟨root, hroot, Except.ok.inj (hany.symm.trans htree)⟩
    · exact .inr ⟨hseveral, Except.ok.inj (hany.symm.trans htree)⟩
  | some k =>
    cases hk : d.graph.node? k with
    | none =>
      have hempty : d.graph.isEmpty = false := by simp [Digraph.isEmpty, Nat.ne_of_gt hpos]
      simp [anyTree, hempty, hk] at hany
    | some root =>
      have htree := d.anyTree_some hk
      exact .inl ⟨root, KeyedGraph.lt_size_of_node?_eq_some hk,
        Except.ok.inj (hany.symm.trans htree)⟩

/-- A tree agrees with the edges of the graph and those of its super-root. -/
theorem agreesWith_of_dominatorTree (h : d.dominatorTree entry allow = .ok t) :
    t.AgreesWith (d.Leads t) := by
  rcases d.tree_cases h with ⟨root, hroot, rfl⟩ | ⟨-, rfl⟩
  · exact d.agreesWith_rootedTree hroot
  · exact d.agreesWith_joinedTree

/-- A tree lists the nodes of the graph by rank. -/
theorem pairwise_nodes_of_dominatorTree (h : d.dominatorTree entry allow = .ok t) :
    t.nodes.Pairwise fun u v => d.order.idxOf u < d.order.idxOf v := by
  rcases d.tree_cases h with ⟨root, hroot, rfl⟩ | ⟨-, rfl⟩
  · exact d.pairwise_nodes_rootedTree hroot
  · exact d.pairwise_nodes_joinedTree

/-! ## Nodes and ranks -/

variable {u v : Nat}

/-- The super-root is no node of the graph, and it is the root of the tree. -/
theorem superRoot_of_dominatorTree (h : d.dominatorTree entry allow = .ok t)
    (hv : t.superRoot = some v) : v = d.graph.size ∧ t.root = v := by
  rcases d.tree_cases h with ⟨root, -, rfl⟩ | ⟨-, rfl⟩
  · cases hv
  · obtain rfl : d.graph.size = v := Option.some.inj hv
    exact ⟨rfl, rfl⟩

/-- From a node of the graph only edges of the graph lead on. -/
theorem reaches_of_leads (h : d.dominatorTree entry allow = .ok t) (hu : t.superRoot ≠ some u)
    (huv : Relation.ReflTransGen (d.Leads t) u v) : d.graph.adjacency.Reaches u v := by
  induction huv with
  | refl => exact .refl u
  | @tail x v hux hedge ih =>
    rcases hedge with hedge | ⟨hx, -⟩
    · exact ih.tail hedge
    · -- nothing leads to the super-root
      rcases Relation.ReflTransGen.cases_tail ih with rfl | ⟨y, -, hedge⟩
      · exact absurd hx hu
      · have hlt := (d.graph.adjacency.lt_of_mem_succ hedge).2
        exact absurd (d.superRoot_of_dominatorTree h hx).1 (Nat.ne_of_lt hlt)

/-- The nodes of a tree are nodes of the graph. -/
theorem lt_size_of_mem_nodes (h : d.dominatorTree entry allow = .ok t) (hv : v ∈ t.nodes) :
    v < d.graph.size := by
  obtain ⟨hne, hreach⟩ := (d.agreesWith_of_dominatorTree h).mem_nodes_iff.1 hv
  rcases Relation.ReflTransGen.cases_tail hreach with heq | ⟨u, -, hedge | ⟨-, hentry⟩⟩
  · subst heq
    rcases d.tree_cases h with ⟨root, hroot, rfl⟩ | ⟨-, rfl⟩
    · exact hroot
    · exact absurd rfl hne
  · exact (d.graph.adjacency.lt_of_mem_succ hedge).2
  · exact d.graph.adjacency.lt_of_mem_entries hentry

/-- What has an immediate dominator is a node of the graph. -/
theorem lt_size_of_immediatelyDominates (h : d.dominatorTree entry allow = .ok t)
    (hdom : ImmediatelyDominates (d.Leads t) t.root u v) : v < d.graph.size := by
  refine d.lt_size_of_mem_nodes h ((d.agreesWith_of_dominatorTree h).mem_nodes_iff.2
    ⟨fun hv => ?_, hdom.2.1.1⟩)
  obtain ⟨-, hroot⟩ := d.superRoot_of_dominatorTree h hv
  exact not_immediatelyDominates_root (hroot ▸ hdom)

/-- A node of the graph has a smaller rank than what it immediately dominates. -/
theorem idxOf_lt_of_immediatelyDominates (h : d.dominatorTree entry allow = .ok t)
    (hu : t.superRoot ≠ some u) (hdom : ImmediatelyDominates (d.Leads t) t.root u v) :
    d.order.idxOf u < d.order.idxOf v := by
  have htop := d.isTopological_order
  obtain ⟨p, hp⟩ := exists_path_iff.2 hdom.2.1.1
  have hreach := d.reaches_of_leads h hu (hp.reaches_of_mem (hdom.2.1.2 p hp))
  refine Nat.lt_of_le_of_ne (htop.idxOf_le_of_reaches hreach) fun heq => hdom.1 ?_
  have hv : v ∈ d.order := htop.mem_iff.2 (d.lt_size_of_immediatelyDominates h hdom)
  exact ((List.idxOf_inj hv).1 heq.symm).symm

end Dag

end FlowBubbles
