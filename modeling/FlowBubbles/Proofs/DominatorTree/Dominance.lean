import Mathlib.Data.List.Basic
import Mathlib.Logic.Relation

/-!
# Dominance

One node dominates another if it lies on every path from the root to it. The paths run along a
relation on the nodes, so that the same notion serves all edges of a graph and the edges along an
order. `dominates_iff_of_ne` says what dominance means in terms of the last edges of the paths.
-/

namespace FlowBubbles

/-- `Path R root v p`: a path along `R` from `root` to `v` visits the nodes `p`, the last one
first. -/
inductive Path (R : Nat → Nat → Prop) (root : Nat) : Nat → List Nat → Prop
  | start : Path R root root [root]
  | step {u v : Nat} {p : List Nat} (hp : Path R root u p) (huv : R u v) : Path R root v (v :: p)

/-- Whether `d` lies on every path from the root to `v`, to which there is one. -/
def Dominates (R : Nat → Nat → Prop) (root d v : Nat) : Prop :=
  Relation.ReflTransGen R root v ∧ ∀ p, Path R root v p → d ∈ p

/-- Whether `d` is the nearest one of the other nodes that dominate `v`: all of these dominate it. -/
def ImmediatelyDominates (R : Nat → Nat → Prop) (root d v : Nat) : Prop :=
  d ≠ v ∧ Dominates R root d v ∧ ∀ x, x ≠ v → Dominates R root x v → Dominates R root x d

variable {R R' : Nat → Nat → Prop} {root d u v x : Nat} {p : List Nat}

/-! ## Paths -/

namespace Path

theorem reaches (h : Path R root v p) : Relation.ReflTransGen R root v := by
  induction h with
  | start => exact .refl
  | step _ huv ih => exact ih.tail huv

theorem mem_self (h : Path R root v p) : v ∈ p := by
  cases h <;> exact List.mem_cons_self

theorem exists_eq_cons (h : Path R root v p) : ∃ q, p = v :: q := by
  cases h <;> exact ⟨_, rfl⟩

theorem mem_root (h : Path R root v p) : root ∈ p := by
  induction h with
  | start => exact List.mem_cons_self
  | step _ _ ih => exact List.mem_cons_of_mem _ ih

/-- A path to another node comes there from some other node. -/
theorem exists_pred_ne (h : Path R root v p) (hne : v ≠ root) : ∃ u ∈ p, u ≠ v ∧ R u v := by
  induction h with
  | start => exact absurd rfl hne
  | @step u v p hp huv ih =>
    by_cases heq : u = v
    · -- the last edge is a loop
      obtain ⟨w, hw, hstep⟩ := ih (heq ▸ hne)
      exact ⟨w, List.mem_cons_of_mem _ hw, heq ▸ hstep⟩
    · exact ⟨u, List.mem_cons_of_mem _ hp.mem_self, heq, huv⟩

/-- Every node of a path has a path of its own, which stays on the path. -/
theorem exists_of_mem (h : Path R root v p) (hx : x ∈ p) : ∃ q, Path R root x q ∧ q ⊆ p := by
  induction h with
  | start =>
    obtain rfl := List.mem_singleton.1 hx
    exact ⟨[x], .start, List.Subset.refl _⟩
  | @step u v p hp huv ih =>
    rcases List.mem_cons.1 hx with rfl | hx
    · exact ⟨x :: p, .step hp huv, List.Subset.refl _⟩
    · obtain ⟨q, hq, hsub⟩ := ih hx
      exact ⟨q, hq, List.subset_cons_of_subset _ hsub⟩

/-- Every node of a path reaches its end. -/
theorem reaches_of_mem (h : Path R root v p) (hx : x ∈ p) : Relation.ReflTransGen R x v := by
  induction h with
  | start => rw [List.mem_singleton.1 hx]
  | step _ huv ih =>
    rcases List.mem_cons.1 hx with rfl | hx
    · exact .refl
    · exact (ih hx).tail huv

theorem mono (hR : ∀ u v, R u v → R' u v) (h : Path R root v p) : Path R' root v p := by
  induction h with
  | start => exact .start
  | step _ huv ih => exact .step ih (hR _ _ huv)

/-- Without its loops a path leads to the same node, along some of its nodes. -/
theorem exists_loopless (h : Path R root v p) :
    ∃ q, Path (fun u v => R u v ∧ u ≠ v) root v q ∧ q ⊆ p := by
  induction h with
  | start => exact ⟨[root], .start, List.Subset.refl _⟩
  | @step u v p _ huv ih =>
    obtain ⟨q, hq, hsub⟩ := ih
    by_cases hne : u = v
    · exact ⟨q, hne ▸ hq, List.subset_cons_of_subset _ hsub⟩
    · exact ⟨v :: q, .step hq ⟨huv, hne⟩, List.cons_subset_cons _ hsub⟩

end Path

theorem exists_path_iff : (∃ p, Path R root v p) ↔ Relation.ReflTransGen R root v := by
  constructor
  · rintro ⟨p, hp⟩
    exact hp.reaches
  · intro h
    induction h with
    | refl => exact ⟨_, .start⟩
    | tail _ huv ih =>
      obtain ⟨p, hp⟩ := ih
      exact ⟨_, .step hp huv⟩

/-! ## Dominators -/

namespace Dominates

theorem refl (h : Relation.ReflTransGen R root v) : Dominates R root v v :=
  ⟨h, fun _ hp => hp.mem_self⟩

/-- A dominator of a node has a path of its own. -/
theorem reaches (h : Dominates R root d v) : Relation.ReflTransGen R root d := by
  obtain ⟨p, hp⟩ := exists_path_iff.2 h.1
  obtain ⟨q, hq, -⟩ := hp.exists_of_mem (h.2 p hp)
  exact hq.reaches

end Dominates

/-- What is reached is what dominates itself. -/
theorem dominates_self_iff : Dominates R root v v ↔ Relation.ReflTransGen R root v :=
  ⟨And.left, .refl⟩

theorem dominates_root_iff : Dominates R root d root ↔ d = root := by
  constructor
  · exact fun h => List.mem_singleton.1 (h.2 _ .start)
  · rintro rfl
    exact .refl .refl

/-- Nothing stands between the root and itself. -/
theorem not_immediatelyDominates_root : ¬ImmediatelyDominates R root d root := by
  rintro ⟨hne, hdom, -⟩
  exact hne (dominates_root_iff.1 hdom)

/-- A node other than the root is dominated by itself and by what dominates all reachable nodes
before it. -/
theorem dominates_iff_of_ne (hv : Relation.ReflTransGen R root v) (hne : v ≠ root) :
    Dominates R root d v ↔
      d = v ∨ ∀ u, R u v → Relation.ReflTransGen R root u → Dominates R root d u := by
  constructor
  · intro h
    by_cases hd : d = v
    · exact .inl hd
    · refine .inr fun u huv hu => ⟨hu, fun p hp => ?_⟩
      exact (List.mem_cons.1 (h.2 _ (.step hp huv))).resolve_left hd
  · rintro (rfl | h)
    · exact .refl hv
    · -- a path to `v` comes from a reachable node before it
      refine ⟨hv, fun p hp => ?_⟩
      cases hp with
      | start => exact absurd rfl hne
      | step hp huv => exact List.mem_cons_of_mem _ ((h _ huv hp.reaches).2 _ hp)

/-- Loops make no difference. -/
theorem dominates_loopless_iff :
    Dominates (fun u v => R u v ∧ u ≠ v) root d v ↔ Dominates R root d v := by
  have hmono : ∀ u v, R u v ∧ u ≠ v → R u v := fun _ _ h => h.1
  constructor
  · intro h
    obtain ⟨p, hp⟩ := exists_path_iff.2 h.1
    refine ⟨(hp.mono hmono).reaches, fun p hp => ?_⟩
    obtain ⟨q, hq, hsub⟩ := hp.exists_loopless
    exact hsub (h.2 q hq)
  · refine fun h => ⟨?_, fun p hp => h.2 p (hp.mono hmono)⟩
    obtain ⟨p, hp⟩ := exists_path_iff.2 h.1
    obtain ⟨q, hq, -⟩ := hp.exists_loopless
    exact hq.reaches

end FlowBubbles
