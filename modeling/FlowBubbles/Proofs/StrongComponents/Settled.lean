import FlowBubbles.Proofs.Reachability
import Mathlib.Data.List.Nodup

/-!
# Settled components

A list of components is settled if it can only grow: its components are whole classes of mutually
reachable nodes, and no edge leads out of the listed nodes. `Settled.snoc` says when one more
component may be put at the end, and the theorems after it read the partition off a settled list
that holds all nodes.
-/

namespace FlowBubbles

variable {a : Adjacency} {disc : Nat → Nat} {cs : List (List Nat)} {c : List Nat} {x y : Nat}

/-- The listed components are strongly connected components, no edge leads out of them, and an edge
from one to another leads to an earlier one. Nodes are listed by falling discovery. -/
structure Settled (a : Adjacency) (disc : Nat → Nat) (cs : List (List Nat)) : Prop where
  ne_nil : ∀ c ∈ cs, c ≠ []
  sorted : ∀ c ∈ cs, c.Pairwise fun x y => disc y < disc x
  mem_iff : ∀ c ∈ cs, ∀ x ∈ c, ∀ y, y ∈ c ↔ a.Mutual x y
  nodup : cs.flatten.Nodup
  succ_mem : ∀ x ∈ cs.flatten, ∀ y ∈ a.succ x, y ∈ cs.flatten
  no_edge : cs.Pairwise fun c c' => ∀ x ∈ c, ∀ y ∈ c', y ∉ a.succ x

namespace Settled

theorem nil : Settled a disc [] := by
  constructor <;> simp

/-- Whatever a listed node reaches is listed. -/
theorem mem_of_reaches (h : Settled a disc cs) (hx : x ∈ cs.flatten) (hxy : a.Reaches x y) :
    y ∈ cs.flatten :=
  hxy.mem_of_closed (fun x y hx hy => h.succ_mem x hx y hy) hx

/-- New nodes that reach each other, and whose edges lead to each other and to listed nodes, are the
next component. -/
theorem snoc (h : Settled a disc cs) (hne : c ≠ [])
    (hsorted : c.Pairwise fun x y => disc y < disc x)
    (hmutual : ∀ x ∈ c, ∀ y ∈ c, a.Mutual x y)
    (hsucc : ∀ x ∈ c, ∀ y ∈ a.succ x, y ∈ c ∨ y ∈ cs.flatten)
    (hnew : ∀ x ∈ c, x ∉ cs.flatten) : Settled a disc (cs ++ [c]) := by
  have hstay : ∀ x y, a.Reaches x y → x ∈ c ∨ x ∈ cs.flatten → y ∈ c ∨ y ∈ cs.flatten := by
    intro x y hxy hx
    refine hxy.mem_of_closed (S := fun x => x ∈ c ∨ x ∈ cs.flatten) ?_ hx
    rintro x y (hx | hx) hy
    · exact hsucc x hx y hy
    · exact .inr (h.succ_mem x hx y hy)
  refine ⟨?_, ?_, ?_, ?_, ?_, ?_⟩
  · simpa [or_imp, forall_and] using ⟨h.ne_nil, hne⟩
  · simpa [or_imp, forall_and] using ⟨h.sorted, hsorted⟩
  · simp only [List.mem_append, List.mem_singleton]
    rintro c' (hc' | rfl) x hx y
    · exact h.mem_iff c' hc' x hx y
    · refine ⟨hmutual x hx y, fun hxy => ?_⟩
      -- a listed node does not reach back to a new one
      refine (hstay x y hxy.1 (.inl hx)).resolve_right fun hy => hnew x hx ?_
      exact h.mem_of_reaches hy hxy.2
  · have hnodup : c.Nodup := hsorted.imp fun hlt heq => by simp [heq] at hlt
    rw [List.flatten_append, List.flatten_singleton, List.nodup_append]
    refine ⟨h.nodup, hnodup, ?_⟩
    rintro x hx _ hx' rfl
    exact hnew x hx' hx
  · simp only [List.flatten_append, List.flatten_singleton, List.mem_append]
    rintro x (hx | hx) y hy
    · exact .inl (h.succ_mem x hx y hy)
    · exact (hsucc x hx y hy).symm
  · rw [List.pairwise_append]
    refine ⟨h.no_edge, List.pairwise_singleton .., ?_⟩
    simp only [List.mem_singleton]
    rintro c' hc' _ rfl x hx y hy hxy
    exact hnew y hy (h.succ_mem x (List.mem_flatten.2 ⟨c', hc', hx⟩) y hxy)

/-- Two nodes are listed in one component if and only if they reach each other. -/
theorem exists_mem_iff (h : Settled a disc cs) (hx : x ∈ cs.flatten) :
    (∃ c ∈ cs, x ∈ c ∧ y ∈ c) ↔ a.Mutual x y := by
  constructor
  · rintro ⟨c, hc, hxc, hyc⟩
    exact (h.mem_iff c hc x hxc y).1 hyc
  · intro hxy
    obtain ⟨c, hc, hxc⟩ := List.mem_flatten.1 hx
    exact ⟨c, hc, hxc, (h.mem_iff c hc x hxc y).2 hxy⟩

/-- An edge between different components leads to the earlier one. -/
theorem lt_of_mem_succ (h : Settled a disc cs) {i j : Nat} (hi : i < cs.length)
    (hj : j < cs.length) (hx : x ∈ cs[i]) (hy : y ∈ cs[j]) (hxy : y ∈ a.succ x) (hne : i ≠ j) :
    j < i := by
  rcases Nat.lt_or_gt_of_ne hne with hlt | hgt
  · exact absurd hxy (List.pairwise_iff_getElem.1 h.no_edge i j hi hj hlt x hx y hy)
  · exact hgt

end Settled

end FlowBubbles
