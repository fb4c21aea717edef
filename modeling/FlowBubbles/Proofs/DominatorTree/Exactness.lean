import FlowBubbles.Proofs.DominatorTree.Placement
import FlowBubbles.Proofs.TopologicalOrder

/-!
# Dominator trees are exact

A tree that is built along an order answers for the paths along the order. If the order is
topological these are all paths, up to loops, so that the tree answers for the graph itself.
-/

namespace FlowBubbles

/-! ## Climbing a tree -/

namespace DominatorTree

variable {t : DominatorTree} {size n d v : Nat} {rank : NodeMap Nat}

/-- With enough steps the climb from a node visits its ancestors. -/
theorem mem_climb_iff (h : Rooted size rank t.root t.parent) (hv : (t.parent.get v).isSome)
    (hn : Rooted.placedBelow size rank t.parent (rank.get v) < n) :
    d ∈ t.climb n v ↔ Ancestor t.parent d v := by
  induction n generalizing v with
  | zero => exact absurd hn (Nat.not_lt_zero _)
  | succ n ih =>
    by_cases hroot : v = t.root
    · rw [climb, immediateDominator, if_pos hroot, List.mem_singleton, hroot, h.ancestor_root_iff]
    · obtain ⟨p, hp⟩ := Option.isSome_iff_exists.1 hv
      obtain ⟨hplaced, hlt⟩ := h.up v p hp hroot
      have hbelow := h.placedBelow_lt hplaced hlt
      rw [climb, immediateDominator, if_neg hroot, hp, List.mem_cons, ih hplaced (by omega),
        ancestor_iff_of_parent hp]

/-- If the tree lists its nodes, the dominators of a node are its ancestors. -/
theorem dominates_iff_ancestor (h : Rooted size rank t.root t.parent)
    (horder : ∀ x, (t.parent.get x).isSome → x ∈ t.order) :
    t.dominates d v = true ↔ t.contains v = true ∧ Ancestor t.parent d v := by
  rw [dominates, Bool.and_eq_true, Bool.and_eq_true, List.contains_iff_mem, dominators]
  constructor
  · rintro ⟨⟨-, hv⟩, hd⟩
    rw [if_pos hv, mem_climb_iff h hv (Rooted.placedBelow_lt_length horder hv)] at hd
    exact ⟨hv, hd⟩
  · rintro ⟨hv, hd⟩
    rw [if_pos hv, mem_climb_iff h hv (Rooted.placedBelow_lt_length horder hv)]
    exact ⟨⟨(h.of_ancestor hv hd).1, hv⟩, hd⟩

end DominatorTree

/-! ## The tree along an order -/

namespace Adjacency

variable {a : Adjacency} {root d u v : Nat} {order : List Nat}

/-- The nodes of a tree are placed, and their ancestors are their dominators along the order. -/
theorem Suits.sound (h : a.Suits root order) :
    Placement.Sound a root order order
      (order.foldl (Placement.place a (NodeMap.positions order order.length) root)
        (Placement.start a root)) :=
  Placement.sound_foldl (Placement.sound_start h) h rfl

theorem Suits.rooted (h : a.Suits root order) :
    Rooted a.size (NodeMap.positions order order.length) root
      (a.dominatorTree root order).parent :=
  h.sound.rooted

theorem Suits.ancestor_iff (h : a.Suits root order)
    (hv : (a.dominatorTree root order).contains v = true) :
    Ancestor (a.dominatorTree root order).parent d v ↔ Dominates (a.Climbs order) root d v :=
  h.sound.ancestor_iff v hv d

theorem Suits.contains_iff (h : a.Suits root order) :
    (a.dominatorTree root order).contains v = true ↔
      Relation.ReflTransGen (a.Climbs order) root v := by
  refine (h.sound.placed_iff v).trans ⟨And.right, fun hreach => ⟨?_, hreach⟩⟩
  rcases hreach.cases_tail with heq | ⟨u, -, hclimbs⟩
  · exact .inl heq
  · exact .inr hclimbs.2.1

theorem Suits.dominates_iff (h : a.Suits root order) :
    (a.dominatorTree root order).dominates u v = true ↔
      Dominates (a.Climbs order) root u v := by
  rw [DominatorTree.dominates_iff_ancestor (t := a.dominatorTree root order) h.rooted
    fun x hx => (h.sound.mem_order x).2 hx]
  constructor
  · rintro ⟨hv, hu⟩
    exact (h.ancestor_iff hv).1 hu
  · intro hu
    have hv := h.contains_iff.2 hu.1
    exact ⟨hv, (h.ancestor_iff hv).2 hu⟩

/-- Two nodes that dominate each other are equal. -/
theorem Suits.dominates_antisymm (h : a.Suits root order)
    (huv : Dominates (a.Climbs order) root u v) (hvu : Dominates (a.Climbs order) root v u) :
    u = v := by
  have hu := h.contains_iff.2 hvu.1
  have hv := h.contains_iff.2 huv.1
  exact h.rooted.ancestor_antisymm hu hv ((h.ancestor_iff hv).2 huv) ((h.ancestor_iff hu).2 hvu)

/-- The immediate dominator of a node other than the root is the one of its other dominators that
all of these dominate. -/
theorem Suits.exists_immediateDominator (h : a.Suits root order)
    (hv : Relation.ReflTransGen (a.Climbs order) root v) (hne : v ≠ root) :
    ∃ p, (a.dominatorTree root order).immediateDominator v = some p ∧
      ∀ x, (x ≠ v ∧ Dominates (a.Climbs order) root x v ∧
        ∀ y, y ≠ v → Dominates (a.Climbs order) root y v → Dominates (a.Climbs order) root y x) ↔
          x = p := by
  have hcontains := h.contains_iff.2 hv
  obtain ⟨p, hp⟩ := Option.isSome_iff_exists.1 hcontains
  obtain ⟨hplaced, hlt⟩ := h.rooted.up v p hp hne
  -- the strict dominators of `v` are the dominators of its parent
  have hstrict : ∀ x, x ≠ v →
      (Dominates (a.Climbs order) root x v ↔ Dominates (a.Climbs order) root x p) := by
    intro x hx
    rw [← h.ancestor_iff hcontains, ← h.ancestor_iff hplaced, ancestor_iff_of_parent hp,
      or_iff_right hx]
  have hpv : p ≠ v := by
    intro heq
    rw [heq] at hlt
    exact Nat.lt_irrefl _ hlt
  have hpp := (hstrict p hpv).2 (.refl (h.contains_iff.1 hplaced))
  refine ⟨p, (if_neg hne).trans hp, fun x => ⟨?_, ?_⟩⟩
  · rintro ⟨hx, hxv, hall⟩
    exact h.dominates_antisymm ((hstrict x hx).1 hxv) (hall p hpv hpp)
  · rintro rfl
    exact ⟨hpv, hpp, fun y hy hyv => (hstrict y hy).1 hyv⟩

/-! ## The tree along a topological order -/

theorem IsTopological.suits (h : a.IsTopological order) (hroot : root < a.size) :
    a.Suits root order :=
  ⟨h.nodup, fun _ hv => h.mem_iff.1 hv, h.mem_iff.2 hroot, fun v _ hedge hne =>
    h.forward root v hedge hne⟩

/-- Along a topological order run all edges but the loops. -/
theorem IsTopological.climbs_eq (h : a.IsTopological order) :
    a.Climbs order = fun u v => v ∈ a.succ u ∧ u ≠ v := by
  funext u v
  refine propext ⟨fun hclimbs => ⟨hclimbs.1, fun heq => ?_⟩, fun hedge => ?_⟩
  · have hlt := hclimbs.2.2
    rw [heq] at hlt
    exact Nat.lt_irrefl _ hlt
  · exact ⟨hedge.1, h.mem_iff.2 (a.lt_of_mem_succ hedge.1).2, h.forward u v hedge.1 hedge.2⟩

theorem IsTopological.dominates_iff (h : a.IsTopological order) :
    Dominates (a.Climbs order) root u v ↔ Dominates (fun u v => v ∈ a.succ u) root u v := by
  rw [h.climbs_eq, dominates_loopless_iff]

theorem IsTopological.reaches_iff (h : a.IsTopological order) :
    Relation.ReflTransGen (a.Climbs order) root v ↔ a.Reaches root v := by
  rw [← dominates_self_iff, h.dominates_iff, dominates_self_iff]
  rfl

end Adjacency

/-- Along a topological order, and from any node of the graph, the dominator tree is exact. It
contains what the entry reaches and lists all other nodes in ascending order as unreachable. A node
dominates another in the tree if both are reachable and it lies on every path from the entry to the
other. The immediate dominator of a reachable node other than the entry is the only strict dominator
that all strict dominators dominate. -/
theorem DominatorTree.exact_of_isTopological {κ : Type} (g : Digraph κ) {entry : Nat} {order : List Nat}
    (hentry : entry < g.size) (horder : g.adjacency.IsTopological order) :
    let t := g.adjacency.dominatorTree entry order
    let Dom := Dominates (fun u v => v ∈ g.adjacency.succ u) entry
    (∀ v, t.contains v = true ↔ g.adjacency.Reaches entry v) ∧
      (t.unreachable.Pairwise (· < ·) ∧
        ∀ v, v ∈ t.unreachable ↔ v < g.size ∧ ¬g.adjacency.Reaches entry v) ∧
      (∀ u v, t.dominates u v = true ↔
        g.adjacency.Reaches entry u ∧ g.adjacency.Reaches entry v ∧
          ∀ p, Path (fun u v => v ∈ g.adjacency.succ u) entry v p → u ∈ p) ∧
      ∀ v, g.adjacency.Reaches entry v → v ≠ entry →
        ∃ d, t.immediateDominator v = some d ∧
          ∀ x, (x ≠ v ∧ Dom x v ∧ ∀ y, y ≠ v → Dom y v → Dom y x) ↔ x = d := by
  intro t Dom
  have hsuits := horder.suits hentry
  have hcontains : ∀ v, t.contains v = true ↔ g.adjacency.Reaches entry v := fun v =>
    hsuits.contains_iff.trans horder.reaches_iff
  refine ⟨hcontains, ⟨?_, fun v => ?_⟩, fun u v => ?_, fun v hv hne => ?_⟩
  · exact List.pairwise_lt_range.filter _
  · rw [← hcontains]
    simp [t, Adjacency.dominatorTree, DominatorTree.contains]
  · rw [hsuits.dominates_iff, horder.dominates_iff]
    exact ⟨fun h => ⟨h.reaches, h.1, h.2⟩, fun h => h.2⟩
  · obtain ⟨d, hd, hall⟩ := hsuits.exists_immediateDominator (horder.reaches_iff.2 hv) hne
    simp only [horder.dominates_iff] at hall
    exact ⟨d, hd, hall⟩

/-- Two paths from node 1 that meet again in node 4. The edge from node 0, the copy of an edge and
the loop change nothing. -/
def diamond : Digraph Unit where
  labels := #[(), (), (), (), ()]
  edges := #[⟨0, 2⟩, ⟨1, 2⟩, ⟨1, 3⟩, ⟨1, 2⟩, ⟨2, 4⟩, ⟨3, 4⟩, ⟨4, 4⟩]
  edges_lt := by decide

theorem exact_diamond :
    1 < diamond.size ∧ diamond.adjacency.IsTopological [0, 1, 3, 2, 4] ∧
      diamond.adjacency.Reaches 1 4 ∧ ¬diamond.adjacency.Reaches 1 0 ∧
      ¬(∀ p, Path (fun u v => v ∈ diamond.adjacency.succ u) 1 4 p → 2 ∈ p) ∧
      (diamond.adjacency.dominatorTree 1 [0, 1, 3, 2, 4]).immediateDominator 4 = some 1 := by
  have hentry : 1 < diamond.size := by decide
  have horder : diamond.adjacency.IsTopological [0, 1, 3, 2, 4] := by
    refine ⟨by decide, fun u v hedge hne => ?_⟩
    have hmem := Digraph.mem_succ_adjacency.1 hedge
    simp only [diamond, List.mem_cons, List.not_mem_nil, or_false, Edge.mk.injEq] at hmem
    obtain ⟨rfl, rfl⟩ | ⟨rfl, rfl⟩ | ⟨rfl, rfl⟩ | ⟨rfl, rfl⟩ | ⟨rfl, rfl⟩ | ⟨rfl, rfl⟩ | ⟨rfl, rfl⟩ :=
      hmem
    all_goals first
      | decide
      | exact absurd rfl hne
  obtain ⟨hcontains, -, hdominates, -⟩ := DominatorTree.exact_of_isTopological diamond hentry horder
  have hreaches : diamond.adjacency.Reaches 1 2 := (hcontains 2).1 (by decide)
  have hreaches' : diamond.adjacency.Reaches 1 4 := (hcontains 4).1 (by decide)
  refine ⟨hentry, horder, hreaches', ?_, ?_, by decide⟩
  · intro h
    exact absurd ((hcontains 0).2 h) (by decide)
  · intro h
    exact absurd ((hdominates 2 4).2 ⟨hreaches, hreaches', h⟩) (by decide)

end FlowBubbles
