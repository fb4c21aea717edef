import FlowBubbles.Proofs.Checked.Queries
import FlowBubbles.Proofs.DominatorTree.Agreement

/-!
# The order within a tree

A construction leaves a tree whose nodes have ranks that fall along the way up to the root, and that
lists its nodes by rank (`DominatorTree.Ranked`). Each of its nodes is the root or hangs below
another one (`exists_immediateDominator`). The way up from a node has as many steps as its
depth says (`Ranked.above?_eq_root_iff`), and the nodes on it are ordered by dominance
(`Ranked.dominates_total`).
-/

namespace FlowBubbles

namespace DominatorTree

/-- The node that is `k` steps above a node, if the way up is that long. -/
def above? (t : DominatorTree) : Nat → Nat → Option Nat
  | 0, v => some v
  | k + 1, v => (t.immediateDominator v).bind (t.above? k)

/-- The nodes of the tree have ranks that fall along the way up to the root, and the tree lists them
by rank. -/
structure Ranked (t : DominatorTree) (n : Nat) (rank : NodeMap Nat) : Prop where
  rooted : Rooted n rank t.root t.parent
  mem_order_iff : ∀ v, v ∈ t.order ↔ t.contains v = true
  sorted : t.order.Pairwise fun u v => rank.get u < rank.get v

variable {t : DominatorTree} {n k m p u v w : Nat} {rank : NodeMap Nat}

/-- A node of the tree besides the root has an immediate dominator. -/
theorem exists_immediateDominator (hv : t.contains v = true) (hroot : v ≠ t.root) :
    ∃ p, t.immediateDominator v = some p := by
  rw [immediateDominator, if_neg hroot]
  exact Option.isSome_iff_exists.1 hv

/-- With enough steps the length of the climb makes no difference. -/
theorem climb_eq_climb (h : Rooted n rank t.root t.parent) (hv : (t.parent.get v).isSome)
    (hk : Rooted.placedBelow n rank t.parent (rank.get v) < k)
    (hm : Rooted.placedBelow n rank t.parent (rank.get v) < m) : t.climb k v = t.climb m v := by
  induction k generalizing m v with
  | zero => exact absurd hk (Nat.not_lt_zero _)
  | succ k ih =>
    obtain ⟨m, rfl⟩ := Nat.exists_eq_succ_of_ne_zero (Nat.ne_of_gt (Nat.zero_lt_of_lt hm))
    rw [climb, climb]
    cases hp : t.immediateDominator v with
    | none => rfl
    | some p =>
      obtain ⟨hplaced, hlt⟩ := h.of_immediateDominator hp
      have hbelow := h.placedBelow_lt hplaced hlt
      have hclimb : t.climb k p = t.climb m p := ih hplaced (by omega) (by omega)
      exact congrArg (v :: ·) hclimb

namespace Ranked

/-! ## From the root down -/

theorem contains_root (h : t.Ranked n rank) : t.contains t.root = true := by
  rw [contains, h.rooted.parent_root]
  rfl

theorem immediateDominator_root (t : DominatorTree) : t.immediateDominator t.root = none :=
  if_pos rfl

/-- What has an immediate dominator is a node of the tree besides the root. -/
theorem of_immediateDominator (hp : t.immediateDominator v = some p) :
    v ≠ t.root ∧ t.parent.get v = some p := by
  unfold immediateDominator at hp
  split at hp
  · cases hp
  · rename_i hroot
    exact ⟨hroot, hp⟩

theorem contains_of_immediateDominator (hp : t.immediateDominator v = some p) :
    t.contains v = true := by
  rw [contains, (of_immediateDominator hp).2]
  rfl

/-- An immediate dominator is a node of the tree, and of smaller rank. -/
theorem contains_parent (h : t.Ranked n rank) (hp : t.immediateDominator v = some p) :
    t.contains p = true ∧ rank.get p < rank.get v :=
  h.rooted.of_immediateDominator hp

/-! ## The way up -/

theorem placedBelow_lt (h : t.Ranked n rank) (hv : t.contains v = true) :
    Rooted.placedBelow n rank t.parent (rank.get v) < t.order.length :=
  Rooted.placedBelow_lt_length (fun x hx => (h.mem_order_iff x).2 hx) hv

theorem dominators_root (h : t.Ranked n rank) : t.dominators t.root = [t.root] := by
  have hpos := h.placedBelow_lt h.contains_root
  obtain ⟨k, hk⟩ := Nat.exists_eq_succ_of_ne_zero (Nat.ne_of_gt (Nat.zero_lt_of_lt hpos))
  rw [dominators, if_pos h.contains_root, hk, climb, immediateDominator_root]

/-- The dominators of a node are the node itself and those of its immediate dominator. -/
theorem dominators_eq_cons (h : t.Ranked n rank) (hp : t.immediateDominator v = some p) :
    t.dominators v = v :: t.dominators p := by
  have hv := contains_of_immediateDominator hp
  obtain ⟨hcontains, hlt⟩ := h.contains_parent hp
  have hbelow := h.rooted.placedBelow_lt hcontains hlt
  have hlength := h.placedBelow_lt hv
  obtain ⟨k, hk⟩ := Nat.exists_eq_succ_of_ne_zero (Nat.ne_of_gt (Nat.zero_lt_of_lt hlength))
  have hclimb : t.climb k p = t.climb t.order.length p :=
    climb_eq_climb h.rooted hcontains (by omega) (h.placedBelow_lt hcontains)
  rw [dominators, if_pos hv, dominators, if_pos hcontains, ← hclimb, hk, climb, hp]

theorem length_dominators_pos (h : t.Ranked n rank) (hv : t.contains v = true) :
    0 < (t.dominators v).length := by
  by_cases hroot : v = t.root
  · rw [hroot, h.dominators_root]
    exact Nat.one_pos
  · obtain ⟨p, hp⟩ := exists_immediateDominator hv hroot
    rw [h.dominators_eq_cons hp]
    exact Nat.succ_pos _

theorem depth_root (h : t.Ranked n rank) : t.depth t.root = some 0 := by
  rw [depth, if_pos h.contains_root, h.dominators_root]
  rfl

/-- A node is one step further down than its immediate dominator. -/
theorem depth_eq_succ (h : t.Ranked n rank) (hp : t.immediateDominator v = some p) :
    t.depth v = (t.depth p).map (· + 1) := by
  have hcontains := (h.contains_parent hp).1
  have hpos := h.length_dominators_pos hcontains
  rw [depth, if_pos (contains_of_immediateDominator hp), depth, if_pos hcontains,
    h.dominators_eq_cons hp, List.length_cons, Option.map_some, Nat.add_sub_cancel,
    Nat.sub_add_cancel hpos]

/-- The way up from a node comes to the root after as many steps as its depth says, and not
before. -/
theorem above?_eq_root_iff (h : t.Ranked n rank) (hv : t.contains v = true) :
    t.above? k v = some t.root ↔ t.depth v = some k := by
  induction k generalizing v with
  | zero =>
    by_cases hroot : v = t.root
    · simp [above?, hroot, h.depth_root]
    · obtain ⟨p, hp⟩ := exists_immediateDominator hv hroot
      rw [h.depth_eq_succ hp]
      simp [above?, hroot]
  | succ k ih =>
    by_cases hroot : v = t.root
    · rw [hroot, h.depth_root, above?, immediateDominator_root]
      simp
    · obtain ⟨p, hp⟩ := exists_immediateDominator hv hroot
      rw [h.depth_eq_succ hp, above?, hp, Option.bind_some,
        ih (h.contains_parent hp).1]
      simp

/-! ## Dominance as an order -/

theorem dominates_iff (h : t.Ranked n rank) :
    t.dominates u v = true ↔ t.contains v = true ∧ Ancestor t.parent u v :=
  dominates_iff_ancestor h.rooted fun x hx => (h.mem_order_iff x).2 hx

theorem contains_of_dominates (h : t.Ranked n rank) (huv : t.dominates u v = true) :
    t.contains u = true := by
  obtain ⟨hv, hu⟩ := h.dominates_iff.1 huv
  exact (h.rooted.of_ancestor hv hu).1

theorem dominates_self (h : t.Ranked n rank) (hv : t.contains v = true) :
    t.dominates v v = true :=
  h.dominates_iff.2 ⟨hv, .refl v⟩

theorem dominates_trans (h : t.Ranked n rank) (huv : t.dominates u v = true)
    (hvw : t.dominates v w = true) : t.dominates u w = true := by
  obtain ⟨-, hu⟩ := h.dominates_iff.1 huv
  obtain ⟨hw, hv⟩ := h.dominates_iff.1 hvw
  exact h.dominates_iff.2 ⟨hw, Relation.ReflTransGen.trans hv hu⟩

theorem dominates_antisymm (h : t.Ranked n rank) (huv : t.dominates u v = true)
    (hvu : t.dominates v u = true) : u = v := by
  obtain ⟨hv, hu⟩ := h.dominates_iff.1 huv
  obtain ⟨hu', hv'⟩ := h.dominates_iff.1 hvu
  exact h.rooted.ancestor_antisymm hu' hv hu hv'

/-- The dominators of a node lie on one way up. -/
theorem dominates_total (h : t.Ranked n rank) (huw : t.dominates u w = true)
    (hvw : t.dominates v w = true) : t.dominates u v = true ∨ t.dominates v u = true := by
  have hu := h.contains_of_dominates huw
  have hv := h.contains_of_dominates hvw
  have hunique : Relator.RightUnique fun v p => t.parent.get v = some p :=
    fun x y z hy hz => Option.some.inj (hy.symm.trans hz)
  have htotal := Relation.ReflTransGen.total_of_right_unique hunique
    (h.dominates_iff.1 huw).2 (h.dominates_iff.1 hvw).2
  rcases htotal with hup | hup
  · exact .inr (h.dominates_iff.2 ⟨hu, hup⟩)
  · exact .inl (h.dominates_iff.2 ⟨hv, hup⟩)

/-! ## The list of nodes -/

theorem nodup_order (h : t.Ranked n rank) : t.order.Nodup := by
  refine h.sorted.imp fun {u v} hlt heq => ?_
  rw [heq] at hlt
  omega

/-- In the list the nodes stand by rank. -/
theorem idxOf_lt (h : t.Ranked n rank) (hu : t.contains u = true) (hv : t.contains v = true)
    (hlt : rank.get u < rank.get v) : t.order.idxOf u < t.order.idxOf v := by
  have hu' := List.idxOf_lt_length_of_mem ((h.mem_order_iff u).2 hu)
  have hv' := List.idxOf_lt_length_of_mem ((h.mem_order_iff v).2 hv)
  by_contra hle
  rcases Nat.lt_or_eq_of_le (Nat.le_of_not_lt hle) with hgt | heq
  · have hrank := List.pairwise_iff_getElem.1 h.sorted _ _ hv' hu' hgt
    rw [List.getElem_idxOf, List.getElem_idxOf] at hrank
    omega
  · have huv := (List.idxOf_inj ((h.mem_order_iff v).2 hv)).1 heq
    rw [huv] at hlt
    omega

/-- The root comes first. -/
theorem head?_order (h : t.Ranked n rank) : t.order.head? = some t.root := by
  have hroot := (h.mem_order_iff t.root).2 h.contains_root
  have hsorted := h.sorted
  have hle : ∀ v ∈ t.order, rank.get t.root ≤ rank.get v := fun v hv =>
    h.rooted.rank_root_le ((h.mem_order_iff v).1 hv)
  cases horder : t.order with
  | nil => simp [horder] at hroot
  | cons x l =>
    rw [horder] at hroot hsorted hle
    rcases List.mem_cons.1 hroot with heq | hmem
    · rw [heq]
      rfl
    · have hlt := (List.pairwise_cons.1 hsorted).1 t.root hmem
      have := hle x List.mem_cons_self
      omega

/-- A node stands behind its immediate dominator. -/
theorem idxOf_immediateDominator_lt (h : t.Ranked n rank)
    (hp : t.immediateDominator v = some p) : t.order.idxOf p < t.order.idxOf v := by
  obtain ⟨hcontains, hlt⟩ := h.contains_parent hp
  exact h.idxOf_lt hcontains (contains_of_immediateDominator hp) hlt

/-! ## Children -/

theorem mem_children_iff (h : t.Ranked n rank) :
    v ∈ t.children p ↔ t.immediateDominator v = some p := by
  rw [children, List.mem_filter, beq_iff_eq, and_iff_right_iff_imp]
  intro hp
  exact (h.mem_order_iff v).2 (contains_of_immediateDominator hp)

/-- A node besides the root is in the list of children of its parent, once, and in no other. -/
theorem count_children (h : t.Ranked n rank) (hp : t.immediateDominator v = some p) (q : Nat) :
    (t.children q).count v = if q = p then 1 else 0 := by
  have hnodup : (t.children q).Nodup := h.nodup_order.filter _
  have hmem : v ∈ t.children q ↔ q = p := by
    rw [h.mem_children_iff, hp, Option.some.injEq, eq_comm]
  simp only [hnodup.count, hmem]

end Ranked

end DominatorTree

end FlowBubbles
