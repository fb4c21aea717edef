import FlowBubbles.Proofs.Checked.Queries
import FlowBubbles.Proofs.DominatorTree.Agreement

/-!
# Trees along any order

An order that starts with the root need not be topological, and it need not list all nodes. While
the tree is built, an edge that runs against the order, or to or from a node outside it, meets a
node that is not placed, and so it does not count. What counts are the paths along which the
positions in the order grow (`Adjacency.path_climbs_iff`), and for these the tree is exact
(`DominatorTree.exact_along_order`).
-/

namespace FlowBubbles

namespace Adjacency

variable {a : Adjacency} {root v : Nat} {order p : List Nat}

/-- Whether `p` are the nodes, the last one first, of a path from `root` to `v` that stays in the
order and along which the positions grow. -/
structure IncreasingPath (a : Adjacency) (order : List Nat) (root v : Nat) (p : List Nat) :
    Prop where
  path : Path (fun u v => v ∈ a.succ u) root v p
  mem_order : ∀ x ∈ p, x ∈ order
  increasing : p.Pairwise fun x y => order.idxOf y < order.idxOf x

theorem path_climbs_iff (hroot : root ∈ order) :
    Path (a.Climbs order) root v p ↔ a.IncreasingPath order root v p := by
  constructor
  · intro h
    induction h with
    | start => exact ⟨.start, by simpa using hroot, by simp⟩
    | @step u v p hp hclimbs ih =>
      refine ⟨ih.path.step hclimbs.1, List.forall_mem_cons.2 ⟨hclimbs.2.1, ih.mem_order⟩,
        List.pairwise_cons.2 ⟨fun x hx => ?_, ih.increasing⟩⟩
      -- `u` is the last node of `p`, and no other one stands behind it
      obtain ⟨q, rfl⟩ := hp.exists_eq_cons
      have hlast := (List.pairwise_cons.1 ih.increasing).1
      rcases List.mem_cons.1 hx with rfl | hx
      · exact hclimbs.2.2
      · exact Nat.lt_trans (hlast x hx) hclimbs.2.2
  · intro h
    obtain ⟨hpath, hmem, hincreasing⟩ := h
    induction hpath with
    | start => exact .start
    | @step u v p hp hedge ih =>
      obtain ⟨hv, hmem⟩ := List.forall_mem_cons.1 hmem
      obtain ⟨hlt, hincreasing⟩ := List.pairwise_cons.1 hincreasing
      exact (ih hmem hincreasing).step ⟨hedge, hv, hlt u hp.mem_self⟩

/-- An order suits the node that it starts with. -/
theorem suits_of_head? (hnodup : order.Nodup) (hlt : ∀ v ∈ order, v < a.size)
    (hhead : order.head? = some root) : a.Suits root order := by
  obtain ⟨rest, rfl⟩ : ∃ rest, order = root :: rest := by
    cases order with
    | nil => cases hhead
    | cons x rest => exact ⟨rest, congrArg (· :: rest) (Option.some.inj hhead)⟩
  refine ⟨hnodup, hlt, List.mem_cons_self, fun v _ _ hne => ?_⟩
  rw [List.idxOf_cons_self, List.idxOf_cons_ne rest hne]
  exact Nat.succ_pos _

theorem dominatorTree?_eq_some_iff {t : DominatorTree} :
    a.dominatorTree? root order = some t ↔
      (∀ v ∈ order, v < a.size) ∧ a.dominatorTree root order = t := by
  simp [dominatorTree?]

end Adjacency

/-- Any order of nodes without repetition that starts with the entry gives a tree, also in a graph
with cycles, and all queries of the tree have answers. The tree is that of the increasing paths from
the entry: it contains a node if there is one to it, and a node dominates another one if it lies on
all of them to it, so that the immediate dominator is the nearest of the nodes that do. All other
nodes are listed as unreachable, in ascending order. -/
theorem DominatorTree.exact_along_order (a : Adjacency) {entry : Nat} {order : List Nat}
    (hnodup : order.Nodup) (hlt : ∀ v ∈ order, v < a.size) (hhead : order.head? = some entry) :
    ∃ t, a.dominatorTree? entry order = some t ∧
      (∀ w : Checked.View, w.Shows a →
        ∃ x, Checked.dominatorTree? w entry order = some x ∧ x.Answers t) ∧
      (∀ v, t.contains v = true ↔ ∃ p, a.IncreasingPath order entry v p) ∧
      (∀ u v, t.dominates u v = true ↔
        t.contains u = true ∧ t.contains v = true ∧
          ∀ p, a.IncreasingPath order entry v p → u ∈ p) ∧
      (∀ u v, t.immediateDominator v = some u ↔
        u ≠ v ∧ t.dominates u v = true ∧
          ∀ x, x ≠ v → t.dominates x v = true → t.dominates x u = true) ∧
      t.unreachable.Pairwise (· < ·) ∧
      ∀ v, v ∈ t.unreachable ↔ v < a.size ∧ ¬t.contains v = true := by
  have hsuits := Adjacency.suits_of_head? hnodup hlt hhead
  have hagrees := hsuits.agreesWith
  have hpath : ∀ v p, Path (a.Climbs order) entry v p ↔ a.IncreasingPath order entry v p :=
    fun v p => Adjacency.path_climbs_iff hsuits.root_mem
  have hcontains : ∀ v, (a.dominatorTree entry order).contains v = true ↔
      ∃ p, a.IncreasingPath order entry v p := by
    intro v
    simp only [← hpath, exists_path_iff]
    exact hagrees.contains_iff v
  refine ⟨a.dominatorTree entry order, Adjacency.dominatorTree?_eq_some_iff.2 ⟨hlt, rfl⟩,
    fun w hw => ?_, hcontains, fun u v => ?_, fun u v => ?_, Adjacency.pairwise_unreachable,
    fun v => Adjacency.mem_unreachable_iff⟩
  · obtain ⟨x, hx, hshows⟩ := Checked.dominatorTree?_eq_some hw hsuits
    exact ⟨x, hx, hshows.answers⟩
  · rw [hagrees.dominates_iff]
    simp only [← hpath]
    constructor
    · intro h
      exact ⟨(hagrees.contains_iff u).2 h.reaches, (hagrees.contains_iff v).2 h.1, h.2⟩
    · intro h
      exact ⟨(hagrees.contains_iff v).1 h.2.1, h.2.2⟩
  · rw [hagrees.immediateDominator_iff]
    simp only [ImmediatelyDominates, hagrees.dominates_iff]

/-- From node 2 the way to node 3 leads through node 0, but node 1 has an edge from node 2 as well.
Node 4 is not listed in the order that is used. -/
def tangle : Digraph Unit where
  labels := #[(), (), (), (), ()]
  edges := #[⟨2, 0⟩, ⟨0, 3⟩, ⟨3, 2⟩, ⟨2, 1⟩, ⟨3, 1⟩, ⟨1, 0⟩, ⟨0, 4⟩, ⟨4, 1⟩]
  edges_lt := by decide

theorem exact_along_tangle :
    [2, 0, 3, 1].Nodup ∧ (∀ v ∈ [2, 0, 3, 1], v < tangle.adjacency.size) ∧
      [2, 0, 3, 1].head? = some 2 ∧
      ∃ t, tangle.adjacency.dominatorTree? 2 [2, 0, 3, 1] = some t ∧
        t.immediateDominator 3 = some 0 ∧ t.immediateDominator 1 = some 2 ∧ t.unreachable = [4] ∧
        (∀ p, tangle.adjacency.IncreasingPath [2, 0, 3, 1] 2 3 p → 0 ∈ p) ∧
        ∃ p, tangle.adjacency.IncreasingPath [2, 0, 3, 1] 2 1 p ∧ 0 ∉ p := by
  have hnodup : [2, 0, 3, 1].Nodup := by decide
  have hlt : ∀ v ∈ [2, 0, 3, 1], v < tangle.adjacency.size := by decide
  obtain ⟨t, ht, -, -, hdominates, -⟩ :=
    DominatorTree.exact_along_order tangle.adjacency hnodup hlt rfl
  have hread : (tangle.adjacency.dominatorTree? 2 [2, 0, 3, 1]).map (fun t =>
      (t.immediateDominator 3, t.immediateDominator 1, t.unreachable, t.dominates 0 3,
        t.dominates 0 1, t.contains 1)) = some (some 0, some 2, [4], true, false, true) := by decide
  simp only [ht, Option.map_some, Option.some.injEq, Prod.mk.injEq] at hread
  obtain ⟨hparent3, hparent1, hunreachable, hthree, hone, hcontains⟩ := hread
  refine ⟨hnodup, hlt, rfl, t, ht, hparent3, hparent1, hunreachable,
    ((hdominates 0 3).1 hthree).2.2, ?_⟩
  have hzero : t.contains 0 = true := ((hdominates 0 3).1 hthree).1
  by_contra hnone
  push Not at hnone
  have htrue := (hdominates 0 1).2 ⟨hzero, hcontains, hnone⟩
  rw [hone] at htrue
  cases htrue

end FlowBubbles
