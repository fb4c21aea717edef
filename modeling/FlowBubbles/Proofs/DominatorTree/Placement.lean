import FlowBubbles.Proofs.DominatorTree.CommonAncestor
import FlowBubbles.Proofs.DominatorTree.Dominance
import Mathlib.Data.List.Nodup

/-!
# The tree that is built along an order

Only edges along the order count while the tree is built: when a node is placed, the sources of
these edges are dealt with, and what is known of them is final. So each node that is placed hangs
below the last node that lies on all paths to it along such edges. `Placement.Sound` is the
invariant, `Placement.sound_place` is the step, and `Placement.sound_foldl` is the whole run.
-/

namespace FlowBubbles

namespace Adjacency

/-- Whether an edge leads from `u` to a node `v` that stands behind it in the order. -/
def Climbs (a : Adjacency) (order : List Nat) (u v : Nat) : Prop :=
  v ∈ a.succ u ∧ v ∈ order ∧ order.idxOf u < order.idxOf v

/-- An order of nodes without repetition in which the root stands before the nodes that its edges
lead to. -/
structure Suits (a : Adjacency) (root : Nat) (order : List Nat) : Prop where
  nodup : order.Nodup
  lt_size : ∀ v ∈ order, v < a.size
  root_mem : root ∈ order
  forward : ∀ v ∈ order, v ∈ a.succ root → root ≠ v → order.idxOf root < order.idxOf v

end Adjacency

variable {a : Adjacency} {root d u v w : Nat} {order done rest : List Nat} {p : Placement}

namespace Placement

/-- The ranks along an order: the position of a node, or the length of the order. -/
theorem get_ranks (h : order.Nodup) (v : Nat) :
    (NodeMap.positions order order.length).get v = order.idxOf v := by
  rw [NodeMap.get_positions h]
  split
  · rfl
  · rename_i hv
    exact (List.idxOf_eq_length_iff.2 hv).symm

/-- What holds when the nodes `done` are dealt with: those of them that the root reaches along the
order are placed, together with the root, and the ancestors of a placed node are its dominators. -/
structure Sound (a : Adjacency) (root : Nat) (order done : List Nat) (p : Placement) : Prop where
  rooted : Rooted a.size (NodeMap.positions order order.length) root p.parent
  placed_iff : ∀ v, (p.parent.get v).isSome ↔
    (v = root ∨ v ∈ done) ∧ Relation.ReflTransGen (a.Climbs order) root v
  ancestor_iff : ∀ v, (p.parent.get v).isSome →
    ∀ d, Ancestor p.parent d v ↔ Dominates (a.Climbs order) root d v
  mem_order : ∀ v, v ∈ p.order.toList ↔ (p.parent.get v).isSome

theorem sound_start (h : a.Suits root order) : Sound a root order [] (start a root) := by
  have hlt := h.lt_size root h.root_mem
  have hplaced : ∀ v, (((NodeMap.const none).set root (some root)).get v).isSome ↔ v = root := by
    intro v
    by_cases hv : v = root <;> simp [hv]
  have hroot : Rooted a.size (NodeMap.positions order order.length) root
      ((NodeMap.const none).set root (some root)) := by
    refine ⟨by simp, ?_, ?_, ?_⟩
    · intro v p hp hv
      simp [hv] at hp
    · intro u v hu hv _
      rw [(hplaced u).1 hu, (hplaced v).1 hv]
    · intro v hv
      rwa [(hplaced v).1 hv]
  rw [start, if_pos hlt]
  refine ⟨hroot, ?_, ?_, ?_⟩
  · intro v
    rw [hplaced]
    constructor
    · rintro rfl
      exact ⟨.inl rfl, .refl⟩
    · rintro ⟨hv, -⟩
      simpa using hv
  · intro v hv d
    obtain rfl := (hplaced v).1 hv
    rw [hroot.ancestor_root_iff, dominates_root_iff]
  · intro v
    rw [hplaced]
    simp

/-! ## Placing one node -/

theorem idxOf_lt_iff (hnodup : order.Nodup) (horder : order = done ++ v :: rest) :
    order.idxOf u < order.idxOf v ↔ u ∈ done := by
  subst horder
  have hv : v ∉ done := fun hv => (List.nodup_append.1 hnodup).2.2 v hv v List.mem_cons_self rfl
  rw [List.idxOf_append_of_notMem hv, List.idxOf_cons_self, Nat.add_zero]
  by_cases hu : u ∈ done
  · rw [List.idxOf_append_of_mem hu]
    exact iff_of_true (List.idxOf_lt_length_iff.2 hu) hu
  · rw [List.idxOf_append_of_notMem hu]
    exact iff_of_false (by omega) hu

/-- The placed predecessors of the next node are the reachable nodes with an edge to it along the
order. -/
theorem Sound.placed_pred_iff (hp : Sound a root order done p) (h : a.Suits root order)
    (horder : order = done ++ v :: rest) :
    (u ∈ a.pred v ∧ u ≠ v ∧ (p.parent.get u).isSome) ↔
      a.Climbs order u v ∧ Relation.ReflTransGen (a.Climbs order) root u := by
  have hmem : v ∈ order := by simp [horder]
  rw [a.mem_pred_iff, hp.placed_iff]
  constructor
  · rintro ⟨hedge, hne, rfl | hdone, hreach⟩
    · exact ⟨⟨hedge, hmem, h.forward v hmem hedge hne⟩, hreach⟩
    · exact ⟨⟨hedge, hmem, (idxOf_lt_iff h.nodup horder).2 hdone⟩, hreach⟩
  · rintro ⟨⟨hedge, -, hlt⟩, hreach⟩
    refine ⟨hedge, fun heq => ?_, .inr ((idxOf_lt_iff h.nodup horder).1 hlt), hreach⟩
    rw [heq] at hlt
    exact Nat.lt_irrefl _ hlt

/-- The root, and a node that is not reached, are passed over. -/
theorem Sound.pass (hp : Sound a root order done p)
    (hv : v = root ∨ ¬Relation.ReflTransGen (a.Climbs order) root v) :
    Sound a root order (done ++ [v]) p := by
  refine ⟨hp.rooted, fun x => ?_, hp.ancestor_iff, hp.mem_order⟩
  rw [hp.placed_iff, List.mem_append, List.mem_singleton]
  constructor
  · exact fun hx => ⟨hx.1.imp_right .inl, hx.2⟩
  · rintro ⟨hroot | hdone | rfl, hx⟩
    · exact ⟨.inl hroot, hx⟩
    · exact ⟨.inr hdone, hx⟩
    · exact ⟨.inl (hv.resolve_right (not_not_intro hx)), hx⟩

/-- A node is placed below the nearest common ancestor of its placed predecessors. -/
theorem Sound.hang (hp : Sound a root order done p) (h : a.Suits root order)
    (horder : order = done ++ v :: rest) (hroot : v ≠ root)
    (hw : Meets p.parent v (a.pred v) (some w)) :
    Sound a root order (done ++ [v]) ⟨p.parent.set v (some w), p.order.push v⟩ := by
  obtain ⟨hplaced, ⟨u, hu⟩, hiff⟩ := hw
  have hnotmem : v ∉ done := fun hv =>
    Nat.lt_irrefl _ ((idxOf_lt_iff h.nodup horder).2 hv)
  have hmem : v ∈ order := by simp [horder]
  have hnone : p.parent.get v = none := by
    rw [← Option.not_isSome_iff_eq_none, hp.placed_iff]
    rintro ⟨hv | hv, -⟩
    · exact hroot hv
    · exact hnotmem hv
  obtain ⟨hclimbs, hu_reach⟩ := (hp.placed_pred_iff h horder).1 hu
  have hrank : ∀ x, (p.parent.get x).isSome →
      (NodeMap.positions order order.length).get x <
        (NodeMap.positions order order.length).get v := by
    intro x hx
    rw [get_ranks h.nodup, get_ranks h.nodup]
    rcases ((hp.placed_iff x).1 hx).1 with rfl | hdone
    · -- the root stands no later than the predecessors of `v` that it reaches
      have hle := hp.rooted.rank_root_le hu.2.2
      rw [get_ranks h.nodup, get_ranks h.nodup] at hle
      exact Nat.lt_of_le_of_lt hle hclimbs.2.2
    · exact (idxOf_lt_iff h.nodup horder).2 hdone
  have hreach := hu_reach.tail hclimbs
  have hget : ∀ x, x ≠ v → (p.parent.set v (some w)).get x = p.parent.get x := by
    intro x hx
    rw [NodeMap.get_set, if_neg hx]
  have hself : (p.parent.set v (some w)).get v = some w := by
    rw [NodeMap.get_set, if_pos rfl]
  refine ⟨hp.rooted.set hnone (h.lt_size v hmem) hplaced hrank, ?_, ?_, ?_⟩
  · intro x
    by_cases hx : x = v
    · subst hx
      simp [hself, hreach]
    · rw [hget x hx, hp.placed_iff]
      simp [hx]
  · intro x hx d
    by_cases hxv : x = v
    · subst hxv
      rw [ancestor_iff_of_parent hself, hp.rooted.ancestor_set_iff hnone hplaced, hiff,
        dominates_iff_of_ne hreach hroot]
      -- the placed predecessors are the reachable nodes before `x`, whose dominators are known
      refine or_congr_right ⟨fun hd y hyx hy => ?_, fun hd y hpred hne hy => ?_⟩
      · obtain ⟨hpred, hne, hplaced⟩ := (hp.placed_pred_iff h horder).2 ⟨hyx, hy⟩
        exact (hp.ancestor_iff y hplaced d).1 (hd y hpred hne hplaced)
      · obtain ⟨hyx, hreach⟩ := (hp.placed_pred_iff h horder).1 ⟨hpred, hne, hy⟩
        exact (hp.ancestor_iff y hy d).2 (hd y hyx hreach)
    · rw [hget x hxv] at hx
      rw [hp.rooted.ancestor_set_iff hnone hx, hp.ancestor_iff x hx]
  · intro x
    rw [Array.toList_push, List.mem_append, hp.mem_order, List.mem_singleton]
    by_cases hx : x = v
    · subst hx
      simp [hself]
    · simp [hx]

/-- Dealing with the next node of the order keeps the invariant. -/
theorem sound_place (hp : Sound a root order done p) (h : a.Suits root order)
    (horder : order = done ++ v :: rest) :
    Sound a root order (done ++ [v]) (place a (NodeMap.positions order order.length) root p v) := by
  have hmeets := hp.rooted.meetOfPred v
  rw [place]
  split
  · rename_i hroot
    exact hp.pass (.inl hroot)
  · rename_i hroot
    split
    · rename_i hnone
      rw [hnone] at hmeets
      refine hp.pass (.inr fun hreach => ?_)
      obtain heq | ⟨u, hu, hclimbs⟩ := hreach.cases_tail
      · exact hroot heq
      · obtain ⟨hpred, hne, hplaced⟩ := (hp.placed_pred_iff h horder).2 ⟨hclimbs, hu⟩
        simp [hmeets u hpred hne] at hplaced
    · rename_i w hsome
      rw [hsome] at hmeets
      exact hp.hang h horder hroot hmeets

/-- Dealing with the rest of the order keeps the invariant. -/
theorem sound_foldl (hp : Sound a root order done p) (h : a.Suits root order)
    (horder : order = done ++ rest) :
    Sound a root order order
      (rest.foldl (place a (NodeMap.positions order order.length) root) p) := by
  induction rest generalizing done p with
  | nil =>
    rw [List.append_nil] at horder
    exact horder ▸ hp
  | cons v rest ih =>
    exact ih (sound_place hp h horder) (by simp [horder])

end Placement

end FlowBubbles
