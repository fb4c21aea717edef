import FlowBubbles.Proofs.Checked.Rooting
import FlowBubbles.Proofs.DominatorTree.Increasing
import FlowBubbles.Proofs.DominatorTree.Ranked
import FlowBubbles.Proofs.DominatorTree.SuperRoot

/-!
# One tree behind all queries

Parents, children, the list of nodes, the edges and the unreachable nodes of a dominator tree are
asked for separately. `DominatorTree.Consistent` says that the answers describe one rooted tree, and
`DominatorTree.Built.queries_consistent` that they do so for every tree that is built: that of an
acyclic graph, with or without a super-root, and that along a topological order or along an order
that starts with the root. The edges are counted by their targets, which are the nodes besides the
root (`DominatorTree.Ranked.map_target_edgesWithSuperRoot`).
-/

namespace FlowBubbles

namespace DominatorTree

/-- The queries about the tree describe one rooted tree over the nodes below `n`. -/
structure Consistent (t : DominatorTree) (n : Nat) : Prop where
  /-- The root is in the tree. A super-root is the root, and no node of the graph. -/
  contains_root : t.contains t.root = true
  superRoot : t.superRoot = none ∨ t.superRoot = some t.root ∧ t.root = n
  /-- The way up from a node comes to the root after as many steps as the node's depth says. -/
  depth : ∀ v, t.contains v = true → (t.depth v).isSome ∧
    ∀ k, t.above? k v = some t.root ↔ t.depth v = some k
  /-- The children of a node are the nodes that it dominates immediately. Each node besides the root
  is a child of one node, once. -/
  mem_children_iff : ∀ p v, v ∈ t.children p ↔ t.immediateDominator v = some p
  count_children : ∀ v, t.contains v = true → v ≠ t.root →
    ∃ p, ∀ q, (t.children q).count v = if q = p then 1 else 0
  /-- The nodes are listed once, from the root on, each one behind its parent. Children stand in the
  order of that list. -/
  head?_order : t.order.head? = some t.root
  nodup_order : t.order.Nodup
  mem_order_iff : ∀ v, v ∈ t.order ↔ t.contains v = true
  idxOf_lt : ∀ p v, t.immediateDominator v = some p → t.order.idxOf p < t.order.idxOf v
  children_sublist : ∀ p, (t.children p).Sublist t.order
  /-- The nodes of the graph are those of the tree and the unreachable ones. -/
  contains_iff : ∀ v, t.contains v = true ↔ v ∈ t.nodes ∨ t.superRoot = some v
  partition : (t.nodes ++ t.unreachable).Perm (List.range n)
  /-- One edge leads to each node besides the root. -/
  edge_targets : t.edgesWithSuperRoot.map Edge.target = t.order.filter (· != t.root)
  edge_sources : ∀ e ∈ t.edgesWithSuperRoot, t.immediateDominator e.target = some e.source
  /-- Without the edges of a super-root these are the edges from node to node. -/
  edges_eq_filter : t.edges = t.edgesWithSuperRoot.filter (!t.isSuperRoot ·.source)
  edges_eq_nodes : t.edges = t.nodes.filterMap fun v =>
    ((t.immediateDominator v).filter (!t.isSuperRoot ·)).map (⟨·, v⟩)
  length_edges : t.superRoot = none → t.edges.length + 1 = t.size
  length_edges_superRoot : ∀ s, t.superRoot = some s →
    t.edges.length + (t.children s).length = t.size
  /-- Dominance is an order in which the dominators of a node form a chain. -/
  dominates_self : ∀ v, t.contains v = true → t.dominates v v = true
  dominates_trans : ∀ u v w, t.dominates u v = true → t.dominates v w = true →
    t.dominates u w = true
  dominates_antisymm : ∀ u v, t.dominates u v = true → t.dominates v u = true → u = v
  dominates_total : ∀ u v w, t.dominates u w = true → t.dominates v w = true →
    t.dominates u v = true ∨ t.dominates v u = true

variable {t : DominatorTree} {m n p v : Nat} {rank : NodeMap Nat}

/-! ## Edges -/

/-- The targets of the edges that leave a node are its children. -/
theorem map_target_filter_edgesWithSuperRoot (t : DominatorTree) (p : Nat) :
    (t.edgesWithSuperRoot.filter (·.source == p)).map Edge.target = t.children p := by
  unfold edgesWithSuperRoot children
  induction t.order with
  | nil => rfl
  | cons v l ih =>
    rw [List.filterMap_cons, List.filter_cons]
    cases hp : t.immediateDominator v with
    | none => simpa using ih
    | some q =>
      by_cases hq : q = p
      · simpa [hq] using ih
      · simpa [hq] using ih

theorem immediateDominator_of_mem_edgesWithSuperRoot {e : Edge}
    (he : e ∈ t.edgesWithSuperRoot) : t.immediateDominator e.target = some e.source := by
  obtain ⟨v, -, hv⟩ := List.mem_filterMap.1 he
  obtain ⟨p, hp, rfl⟩ := Option.map_eq_some_iff.1 hv
  exact hp

/-- A super-root has no parent, so the edges without it are edges between other nodes. -/
theorem edges_eq_filterMap_nodes (hsuper : t.superRoot = none ∨ t.superRoot = some t.root) :
    t.edges = t.nodes.filterMap fun v =>
      ((t.immediateDominator v).filter (!t.isSuperRoot ·)).map (⟨·, v⟩) := by
  have hnone : ∀ v, t.isSuperRoot v = true → t.immediateDominator v = none := by
    intro v hv
    rcases hsuper with hsuper | hsuper
    · simp [isSuperRoot, hsuper] at hv
    · have heq : t.root = v := by simpa [isSuperRoot, hsuper] using hv
      rw [← heq, Ranked.immediateDominator_root]
  unfold edges edgesWithSuperRoot nodes
  induction t.order with
  | nil => rfl
  | cons v l ih =>
    rw [List.filterMap_cons, List.filter_cons]
    cases hv : t.isSuperRoot v with
    | true => simpa [hnone v hv] using ih
    | false =>
      cases hp : t.immediateDominator v with
      | none => simpa [hp] using ih
      | some q => cases hq : t.isSuperRoot q <;> simpa [hp, hq] using ih

/-- Each listed node of the tree has one edge to it, unless it is the root. -/
theorem map_target_filterMap {l : List Nat} (hl : ∀ v ∈ l, t.contains v = true) :
    (l.filterMap fun v => (t.immediateDominator v).map (⟨·, v⟩)).map Edge.target =
      l.filter (· != t.root) := by
  induction l with
  | nil => rfl
  | cons v l ih =>
    obtain ⟨hv, hl⟩ := List.forall_mem_cons.1 hl
    rw [List.filterMap_cons, List.filter_cons]
    by_cases hroot : v = t.root
    · rw [hroot, Ranked.immediateDominator_root]
      simpa using ih hl
    · obtain ⟨p, hp⟩ := exists_immediateDominator hv hroot
      simpa [hp, hroot] using ih hl

namespace Ranked

/-- One edge leads to each node besides the root. -/
theorem map_target_edgesWithSuperRoot (h : t.Ranked n rank) :
    t.edgesWithSuperRoot.map Edge.target = t.order.filter (· != t.root) :=
  map_target_filterMap fun v hv => (h.mem_order_iff v).1 hv

theorem length_edgesWithSuperRoot (h : t.Ranked n rank) :
    t.edgesWithSuperRoot.length + 1 = t.order.length := by
  have hroot := (h.mem_order_iff t.root).2 h.contains_root
  have htargets := congrArg List.length h.map_target_edgesWithSuperRoot
  rw [List.length_map, ← h.nodup_order.erase_eq_filter, List.length_erase_of_mem hroot] at htargets
  have hpos := List.length_pos_of_mem hroot
  omega

theorem length_edges (h : t.Ranked n rank) (hsuper : t.superRoot = none) :
    t.edges.length + 1 = t.size := by
  have hedges : t.edges = t.edgesWithSuperRoot := by simp [edges, isSuperRoot, hsuper]
  have hsize : t.size = t.order.length := by simp [size, hsuper]
  rw [hedges, hsize]
  exact h.length_edgesWithSuperRoot

/-- The edges of a super-root lead to its children. -/
theorem length_edges_superRoot (h : t.Ranked n rank) {s : Nat} (hsuper : t.superRoot = some s) :
    t.edges.length + (t.children s).length = t.size := by
  have hchildren := congrArg List.length (t.map_target_filter_edgesWithSuperRoot s)
  have hsource : ∀ e : Edge, t.isSuperRoot e.source = (e.source == s) := by
    intro e
    rw [isSuperRoot, hsuper, Option.some_beq_some, Bool.beq_comm]
  have hedges : t.edges = t.edgesWithSuperRoot.filter fun e => !(e.source == s) := by
    simp only [edges, hsource]
  have hsplit := List.length_eq_length_filter_add (l := t.edgesWithSuperRoot) (·.source == s)
  have hsize : t.size = t.order.length - 1 := by simp [size, hsuper]
  have hlength := h.length_edgesWithSuperRoot
  rw [List.length_map] at hchildren
  rw [hedges]
  omega

end Ranked

/-! ## Nodes in and out of the tree -/

/-- The tree is one over the nodes below `n`: a super-root is its root and no such node, and the
unreachable nodes are those that it does not contain. -/
structure Spans (t : DominatorTree) (n : Nat) : Prop where
  superRoot : t.superRoot = none ∨ t.superRoot = some t.root ∧ t.root = n
  lt_or_superRoot : ∀ v, t.contains v = true → v < n ∨ t.superRoot = some v
  nodup_unreachable : t.unreachable.Nodup
  mem_unreachable_iff : ∀ v, v ∈ t.unreachable ↔ v < n ∧ ¬t.contains v = true

namespace Spans

theorem superRoot_eq_root (hn : t.Spans n) : t.superRoot = none ∨ t.superRoot = some t.root :=
  hn.superRoot.imp_right And.left

/-- A super-root is in the tree, and no node of the graph. -/
theorem of_superRoot (hn : t.Spans n) (h : t.Ranked m rank) (hv : t.superRoot = some v) :
    t.contains v = true ∧ n ≤ v := by
  rcases hn.superRoot with hnone | ⟨hsome, hroot⟩
  · rw [hnone] at hv
    cases hv
  · have hv' : t.root = v := Option.some.inj (hsome.symm.trans hv)
    rw [← hv']
    exact ⟨h.contains_root, Nat.le_of_eq hroot.symm⟩

theorem mem_nodes_iff (hn : t.Spans n) (h : t.Ranked m rank) :
    v ∈ t.nodes ↔ t.contains v = true ∧ v < n := by
  have hnot : (!t.isSuperRoot v) = true ↔ t.superRoot ≠ some v := by simp [isSuperRoot]
  rw [nodes, List.mem_filter, h.mem_order_iff, hnot]
  constructor
  · intro hv
    exact ⟨hv.1, (hn.lt_or_superRoot v hv.1).resolve_right hv.2⟩
  · intro hv
    exact ⟨hv.1, fun hroot => Nat.not_lt_of_le (hn.of_superRoot h hroot).2 hv.2⟩

theorem contains_iff (hn : t.Spans n) (h : t.Ranked m rank) :
    t.contains v = true ↔ v ∈ t.nodes ∨ t.superRoot = some v := by
  rw [hn.mem_nodes_iff h]
  constructor
  · intro hv
    exact (hn.lt_or_superRoot v hv).imp_left fun hlt => ⟨hv, hlt⟩
  · intro hv
    exact hv.elim And.left fun hroot => (hn.of_superRoot h hroot).1

/-- The nodes below `n` are those of the tree and the unreachable ones. -/
theorem perm_nodes (hn : t.Spans n) (h : t.Ranked m rank) :
    (t.nodes ++ t.unreachable).Perm (List.range n) := by
  have hdisjoint : (t.nodes ++ t.unreachable).Nodup := by
    refine List.nodup_append.2 ⟨h.nodup_order.filter _, hn.nodup_unreachable, ?_⟩
    intro u hu v hv heq
    exact ((hn.mem_unreachable_iff v).1 hv).2 (heq ▸ ((hn.mem_nodes_iff h).1 hu).1)
  refine (List.perm_ext_iff_of_nodup hdisjoint List.nodup_range).2 fun v => ?_
  rw [List.mem_append, hn.mem_nodes_iff h, hn.mem_unreachable_iff, List.mem_range]
  constructor
  · intro hv
    exact hv.elim And.right And.left
  · intro hv
    exact (em (t.contains v = true)).imp (⟨·, hv⟩) (⟨hv, ·⟩)

end Spans

/-! ## All queries -/

namespace Ranked

/-- A tree over the nodes below `n` whose ranks fall along the way up is consistent. -/
theorem consistent (h : t.Ranked m rank) (hn : t.Spans n) : t.Consistent n := by
  constructor
  case contains_root => exact h.contains_root
  case superRoot => exact hn.superRoot
  case depth =>
    intro v hv
    refine ⟨?_, fun k => h.above?_eq_root_iff hv⟩
    rw [DominatorTree.depth, if_pos hv]
    rfl
  case mem_children_iff => exact fun p v => h.mem_children_iff
  case count_children =>
    intro v hv hne
    obtain ⟨p, hp⟩ := exists_immediateDominator hv hne
    exact ⟨p, h.count_children hp⟩
  case head?_order => exact h.head?_order
  case nodup_order => exact h.nodup_order
  case mem_order_iff => exact h.mem_order_iff
  case idxOf_lt => exact fun p v => h.idxOf_immediateDominator_lt
  case children_sublist => exact fun p => List.filter_sublist
  case contains_iff => exact fun v => hn.contains_iff h
  case partition => exact hn.perm_nodes h
  case edge_targets => exact h.map_target_edgesWithSuperRoot
  case edge_sources => exact fun e => immediateDominator_of_mem_edgesWithSuperRoot
  case edges_eq_filter => rfl
  case edges_eq_nodes => exact edges_eq_filterMap_nodes hn.superRoot_eq_root
  case length_edges => exact h.length_edges
  case length_edges_superRoot => exact fun s => h.length_edges_superRoot
  case dominates_self => exact fun v => h.dominates_self
  case dominates_trans => exact fun u v w => h.dominates_trans
  case dominates_antisymm => exact fun u v => h.dominates_antisymm
  case dominates_total => exact fun u v w => h.dominates_total

/-- The order below the root is kept if other fields of the tree change. -/
theorem congr {t' : DominatorTree} (h : t.Ranked n rank) (hroot : t'.root = t.root)
    (hparent : t'.parent = t.parent) (horder : t'.order = t.order) : t'.Ranked n rank := by
  refine ⟨?_, fun v => ?_, ?_⟩
  · rw [hroot, hparent]
    exact h.rooted
  · rw [horder, h.mem_order_iff, contains, contains, hparent]
  · rw [horder]
    exact h.sorted

end Ranked

end DominatorTree

/-! ## The trees that are built -/

namespace Adjacency

variable {a : Adjacency} {root : Nat} {order : List Nat}

theorem Suits.ranked (h : a.Suits root order) :
    (a.dominatorTree root order).Ranked a.size (.positions order order.length) := by
  refine ⟨h.rooted, h.sound.mem_order, ?_⟩
  simp only [Placement.get_ranks h.nodup]
  exact h.pairwise_order

theorem Suits.consistent (h : a.Suits root order) :
    (a.dominatorTree root order).Consistent a.size :=
  h.ranked.consistent
    { superRoot := .inl rfl
      lt_or_superRoot := fun v hv => .inl (h.rooted.lt_size v hv)
      nodup_unreachable := pairwise_unreachable.imp Nat.ne_of_lt
      mem_unreachable_iff := fun _ => mem_unreachable_iff }

/-- The tree that is handed out along an order that suits the root is consistent, and all of its
queries have answers. -/
theorem Suits.consistent_and_answers {w : Checked.View} {t : DominatorTree}
    (h : a.Suits root order) (hw : w.Shows a) (ht : a.dominatorTree? root order = some t) :
    t.Consistent a.size ∧ ∃ x, Checked.dominatorTree? w root order = some x ∧ x.Answers t := by
  obtain ⟨-, rfl⟩ := dominatorTree?_eq_some_iff.1 ht
  obtain ⟨x, hx, hshows⟩ := Checked.dominatorTree?_eq_some hw h
  exact ⟨h.consistent, x, hx, hshows.answers⟩

end Adjacency

namespace Dag

variable {κ : Type} (d : Dag κ)

/-- With the super-root taken out of the unreachable nodes, the tree is one over the graph. -/
theorem consistent_joinedTree : d.joinedTree.Consistent d.graph.size := by
  have hsuits := d.isTopological_order.withSuperRoot.suits (Nat.lt_succ_self _)
  have hranked : d.joinedTree.Ranked _ _ := hsuits.ranked.congr rfl rfl rfl
  refine hranked.consistent ⟨.inr ⟨rfl, rfl⟩, fun v hv => ?_, ?_, fun v => ?_⟩
  · have hsuper : d.joinedTree.superRoot = some d.graph.size := rfl
    rw [hsuper, Option.some.injEq, eq_comm]
    exact Nat.lt_or_eq_of_le (d.contains_joinedTree_iff.1 hv)
  · rw [unreachable_joinedTree]
    exact List.nodup_nil
  · rw [unreachable_joinedTree, d.contains_joinedTree_iff]
    simp only [List.not_mem_nil, false_iff, not_and, not_not]
    exact Nat.le_of_lt

end Dag

namespace DominatorTree

/-- Whether a tree over the nodes below `n` is built, and what the construction that refuses to read
outside its tables gives for it: the tree of an acyclic graph, and those of a graph along a
topological order and along an order that starts with the root. -/
inductive Built : Nat → DominatorTree → Option Checked.Tree → Prop
  | ofDag {κ : Type} [DecidableEq κ] [KeyText κ] {d : Dag κ} {entry : Option κ} {allow : Bool}
      {t : DominatorTree} (h : d.dominatorTree entry allow = .ok t) :
      Built d.graph.size t ((d.stored.dominatorTree? entry allow).bind Except.toOption)
  | ofTopological {a : Adjacency} {w : Checked.View} {entry : Nat} {order : List Nat}
      {t : DominatorTree} (hw : w.Shows a) (hentry : entry < a.size)
      (horder : a.IsTopological order) (h : a.dominatorTree? entry order = some t) :
      Built a.size t (Checked.dominatorTree? w entry order)
  | ofEntry {a : Adjacency} {w : Checked.View} {entry : Nat} {order : List Nat}
      {t : DominatorTree} (hw : w.Shows a) (hnodup : order.Nodup)
      (hhead : order.head? = some entry) (h : a.dominatorTree? entry order = some t) :
      Built a.size t (Checked.dominatorTree? w entry order)

/-- For every tree that is built all queries have answers, about any numbers, and these describe one
rooted tree. -/
theorem Built.queries_consistent {n : Nat} {t : DominatorTree} {r : Option Checked.Tree}
    (h : Built n t r) : t.Consistent n ∧ ∃ x, r = some x ∧ x.Answers t := by
  cases h with
  | @ofDag κ _ _ d entry allow t h =>
    have hmatches := d.dominatorTree?_stored entry allow
    rw [h] at hmatches
    obtain ⟨x, hx, size, hshows⟩ := hmatches
    refine ⟨?_, x, by rw [hx]; rfl, hshows.answers⟩
    rcases d.tree_cases h with ⟨root, hroot, rfl⟩ | ⟨-, rfl⟩
    · exact (d.isTopological_order.suits hroot).consistent
    · exact d.consistent_joinedTree
  | ofTopological hw hentry horder h => exact (horder.suits hentry).consistent_and_answers hw h
  | ofEntry hw hnodup hhead h =>
    have hlt := (Adjacency.dominatorTree?_eq_some_iff.1 h).1
    exact (Adjacency.suits_of_head? hnodup hlt hhead).consistent_and_answers hw h

/-- Below the super-root of the confluence, node 5 has two nodes above it and node 4 is its parent,
so that one of the six nodes has an edge from another one. -/
theorem queries_consistent_confluence :
    ∃ t r, Built 6 t r ∧ t.superRoot = some 6 ∧ t.edges = [⟨4, 5⟩] ∧
      t.children 6 = [0, 1, 2, 3, 4] ∧ t.edges.length + (t.children 6).length = t.size ∧
      t.depth 5 = some 2 ∧ t.above? 2 5 = some 6 := by
  have htree : Dag.confluence.dominatorTree none false = .ok Dag.confluence.joinedTree :=
    Dag.confluence.dominatorTree_eq_joinedTree (by decide) false
  have hbuilt := Built.ofDag htree
  obtain ⟨hconsistent, -⟩ := Built.queries_consistent hbuilt
  have hdepth : Dag.confluence.joinedTree.depth 5 = some 2 := by decide
  have hcontains : Dag.confluence.joinedTree.contains 5 = true := by decide
  exact ⟨Dag.confluence.joinedTree, _, hbuilt, rfl, by decide, by decide,
    hconsistent.length_edges_superRoot 6 rfl, hdepth,
    ((hconsistent.depth 5 hcontains).2 2).2 hdepth⟩

end DominatorTree

end FlowBubbles
