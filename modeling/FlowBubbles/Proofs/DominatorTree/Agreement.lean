import FlowBubbles.Proofs.DominatorTree.Exactness

/-!
# Trees that agree with paths

A tree agrees with a relation on the nodes if its nodes, dominators and immediate dominators are
those of the paths along the relation from its root. The tree along an order agrees with the edges
along the order (`Adjacency.Suits.agreesWith`), which for a topological order are the edges of the
graph (`Adjacency.IsTopological.agreesWith`), and it lists its nodes by their position in the order
(`Adjacency.Suits.pairwise_order`).
-/

namespace FlowBubbles

namespace DominatorTree

/-- What the tree says about its nodes is what the paths along `R` from its root say. -/
structure AgreesWith (t : DominatorTree) (R : Nat → Nat → Prop) : Prop where
  contains_iff : ∀ v, t.contains v = true ↔ Relation.ReflTransGen R t.root v
  dominates_iff : ∀ u v, t.dominates u v = true ↔ Dominates R t.root u v
  immediateDominator_iff : ∀ u v,
    t.immediateDominator v = some u ↔ ImmediatelyDominates R t.root u v
  mem_order_iff : ∀ v, v ∈ t.order ↔ t.contains v = true

variable {t t' : DominatorTree} {R : Nat → Nat → Prop} {n u v : Nat}

theorem immediateDominator_congr (hroot : t'.root = t.root) (hparent : t'.parent = t.parent) :
    t'.immediateDominator v = t.immediateDominator v := by
  rw [immediateDominator, immediateDominator, hroot, hparent]

theorem climb_congr (hroot : t'.root = t.root) (hparent : t'.parent = t.parent) :
    t'.climb n v = t.climb n v := by
  induction n generalizing v with
  | zero => rfl
  | succ n ih =>
    rw [climb, climb, immediateDominator_congr hroot hparent]
    cases t.immediateDominator v with
    | none => rfl
    | some p => exact congrArg (v :: ·) ih

/-- Which nodes are joined by the root makes no difference. -/
theorem AgreesWith.congr (h : t.AgreesWith R) (hroot : t'.root = t.root)
    (hparent : t'.parent = t.parent) (horder : t'.order = t.order) : t'.AgreesWith R := by
  have hcontains : ∀ v, t'.contains v = t.contains v := fun v => by
    rw [contains, contains, hparent]
  refine ⟨fun v => ?_, fun u v => ?_, fun u v => ?_, fun v => ?_⟩
  · rw [hcontains, hroot, h.contains_iff]
  · have hdominates : t'.dominates u v = t.dominates u v := by
      rw [dominates, dominates, dominators, dominators, hcontains, hcontains, horder,
        climb_congr hroot hparent]
    rw [hdominates, hroot, h.dominates_iff]
  · rw [immediateDominator_congr hroot hparent, hroot, h.immediateDominator_iff]
  · rw [hcontains, horder, h.mem_order_iff]

/-- Two relations along which the same nodes dominate each other are agreed with alike. -/
theorem AgreesWith.of_dominates_iff {R' : Nat → Nat → Prop} (h : t.AgreesWith R)
    (hR : ∀ u v, Dominates R t.root u v ↔ Dominates R' t.root u v) : t.AgreesWith R' := by
  refine ⟨fun v => ?_, fun u v => (h.dominates_iff u v).trans (hR u v), fun u v => ?_,
    h.mem_order_iff⟩
  · rw [h.contains_iff, ← dominates_self_iff, hR, dominates_self_iff]
  · rw [h.immediateDominator_iff]
    simp only [ImmediatelyDominates, hR]

theorem AgreesWith.mem_children_iff (h : t.AgreesWith R) :
    v ∈ t.children u ↔ ImmediatelyDominates R t.root u v := by
  rw [children, List.mem_filter, beq_iff_eq, h.immediateDominator_iff, and_iff_right_iff_imp]
  intro hdom
  exact (h.mem_order_iff v).2 ((h.contains_iff v).2 hdom.2.1.1)

theorem AgreesWith.mem_nodes_iff (h : t.AgreesWith R) :
    v ∈ t.nodes ↔ t.superRoot ≠ some v ∧ Relation.ReflTransGen R t.root v := by
  rw [nodes, List.mem_filter, h.mem_order_iff, h.contains_iff, and_comm]
  simp [isSuperRoot]

end DominatorTree

/-! ## The nodes in order -/

/-- To the nodes that are placed already, a run adds a part of the nodes that it deals with. -/
theorem Placement.exists_order_foldl (a : Adjacency) (rank : NodeMap Nat) (root : Nat)
    (vs : List Nat) (p : Placement) :
    ∃ l, l.Sublist vs ∧ root ∉ l ∧
      (vs.foldl (place a rank root) p).order.toList = p.order.toList ++ l := by
  induction vs generalizing p with
  | nil => exact ⟨[], .slnil, by simp, by simp⟩
  | cons v vs ih =>
    obtain ⟨l, hsub, hroot, horder⟩ := ih (place a rank root p v)
    rw [List.foldl_cons, horder, place]
    split
    · exact ⟨l, hsub.cons v, hroot, rfl⟩
    · rename_i hv
      split
      · exact ⟨l, hsub.cons v, hroot, rfl⟩
      · exact ⟨v :: l, hsub.cons_cons v, by simp [Ne.symm hv, hroot], by simp⟩

namespace Adjacency

variable {a : Adjacency} {root v : Nat} {order : List Nat}

/-- A tree lists its nodes by their position in the order. -/
theorem Suits.pairwise_order (h : a.Suits root order) :
    (a.dominatorTree root order).order.Pairwise fun u v => order.idxOf u < order.idxOf v := by
  obtain ⟨l, hsub, hroot, horder⟩ := Placement.exists_order_foldl a
    (NodeMap.positions order order.length) root order (Placement.start a root)
  have hstart : (Placement.start a root).order.toList = [root] := by
    rw [Placement.start, if_pos (h.lt_size root h.root_mem)]
  rw [hstart] at horder
  have horder' : (a.dominatorTree root order).order = root :: l := horder
  rw [horder', List.pairwise_cons]
  refine ⟨fun v hv => ?_, (pairwise_idxOf_lt h.nodup).sublist hsub⟩
  -- the root is an ancestor of every other node of the tree
  have hplaced := (h.sound.mem_order v).1 (horder ▸ List.mem_cons_of_mem root hv)
  have hlt := (h.rooted.of_ancestor hplaced (h.rooted.ancestor_root hplaced)).2
  simp only [Placement.get_ranks h.nodup] at hlt
  exact hlt.resolve_left fun heq => hroot (heq ▸ hv)

theorem mem_unreachable_iff :
    v ∈ (a.dominatorTree root order).unreachable ↔
      v < a.size ∧ ¬(a.dominatorTree root order).contains v = true := by
  simp [dominatorTree, DominatorTree.contains]

theorem pairwise_unreachable :
    (a.dominatorTree root order).unreachable.Pairwise (· < ·) :=
  List.pairwise_lt_range.filter _

/-- The tree along an order agrees with the edges along the order. -/
theorem Suits.agreesWith (h : a.Suits root order) :
    (a.dominatorTree root order).AgreesWith (a.Climbs order) := by
  refine ⟨fun v => h.contains_iff, fun u v => h.dominates_iff, fun u v => ?_, h.sound.mem_order⟩
  change (a.dominatorTree root order).immediateDominator v = some u ↔
    ImmediatelyDominates (a.Climbs order) root u v
  by_cases hv : v = root
  · have hnone : (a.dominatorTree root order).immediateDominator v = none := if_pos hv
    rw [hnone, hv]
    simp [not_immediatelyDominates_root]
  · by_cases hreach : Relation.ReflTransGen (a.Climbs order) root v
    · obtain ⟨p, hp, hall⟩ := h.exists_immediateDominator hreach hv
      rw [hp, Option.some.injEq, eq_comm]
      exact (hall u).symm
    · have hcontains := mt h.contains_iff.1 hreach
      have hparent : (a.dominatorTree root order).parent.get v = none := by
        simpa [DominatorTree.contains] using hcontains
      have hnone : (a.dominatorTree root order).immediateDominator v = none := by
        rw [DominatorTree.immediateDominator, hparent, ite_self]
      rw [hnone]
      simp only [reduceCtorEq, false_iff]
      exact fun hdom => hreach hdom.2.1.1

/-- The tree along a topological order agrees with the edges of the graph. -/
theorem IsTopological.agreesWith (h : a.IsTopological order) (hroot : root < a.size) :
    (a.dominatorTree root order).AgreesWith fun u v => v ∈ a.succ u :=
  (h.suits hroot).agreesWith.of_dominates_iff fun _ _ => h.dominates_iff

end Adjacency

end FlowBubbles
