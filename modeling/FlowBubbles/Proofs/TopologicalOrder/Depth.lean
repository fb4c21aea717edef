import FlowBubbles.Proofs.TopologicalOrder.FirstInFirstOut
import Mathlib.Order.Lattice.Nat

/-!
# Depth along the order

The depth of a node is the length of the longest path that ends at it, loops not counted. A path to
a node comes through one of its predecessors, none of which stands behind the last one. So the first
in, first out law hands depth on from last predecessors to the nodes behind them, and the order goes
through the nodes by depth (`Digraph.topologicalOrder_fifo`).
-/

namespace FlowBubbles

namespace Adjacency

variable {a : Adjacency} {order : List Nat} {p q u v x y n : Nat}

/-! ## Paths and depth -/

/-- `PathTo a v n`: a path with `n` edges that are no loops ends at `v`. -/
inductive PathTo (a : Adjacency) : Nat → Nat → Prop
  | start {v : Nat} : PathTo a v 0
  | loop {v n : Nat} (h : PathTo a v n) (hv : v ∈ a.succ v) : PathTo a v n
  | step {u v n : Nat} (h : PathTo a u n) (huv : v ∈ a.succ u) (hne : u ≠ v) : PathTo a v (n + 1)

/-- The greatest number of edges, loops not counted, of a path that ends at a node. -/
noncomputable def depth (a : Adjacency) (v : Nat) : Nat := sSup {n | a.PathTo v n}

/-- A path that moves comes through another node that precedes its end. -/
theorem PathTo.exists_pred (h : a.PathTo v (n + 1)) : ∃ u ∈ a.pred v, u ≠ v ∧ a.PathTo u n := by
  generalize hm : n + 1 = m at h
  induction h with
  | start => cases hm
  | loop _ _ ih => exact ih hm
  | step h huv hne =>
    obtain rfl := Nat.succ.inj hm
    exact ⟨_, a.mem_pred_iff.2 huv, hne, h⟩

/-- Along a path the positions in the order grow with every edge that is no loop. -/
theorem PathTo.le_idxOf (htop : a.IsTopological order) (h : a.PathTo v n) :
    n ≤ order.idxOf v := by
  induction h with
  | start => exact Nat.zero_le _
  | loop _ _ ih => exact ih
  | step _ huv hne ih => exact Nat.lt_of_le_of_lt ih (htop.forward _ _ huv hne)

/-- In an acyclic graph the paths that end at a node have a greatest length. -/
theorem IsTopological.isGreatest_depth (htop : a.IsTopological order) (v : Nat) :
    IsGreatest {n | a.PathTo v n} (a.depth v) := by
  have hbound : BddAbove {n | a.PathTo v n} := ⟨order.idxOf v, fun n hn => hn.le_idxOf htop⟩
  exact ⟨Nat.sSup_mem ⟨0, .start⟩ hbound, fun n hn => le_csSup hbound hn⟩

/-! ## Depth along the order -/

namespace FirstInFirstOut

/-- Last predecessors stand in the order of the nodes. -/
theorem lastPred_le (h : a.FirstInFirstOut order) (hp : a.LastPred order x p)
    (hq : a.LastPred order y q) (hx : x ∈ order) (hle : order.idxOf x ≤ order.idxOf y) :
    order.idxOf p ≤ order.idxOf q := by
  rcases Nat.lt_or_eq_of_le hle with hlt | heq
  · rcases (h.later x y p q hp hq).1 hlt with hpq | ⟨rfl, -⟩
    · exact Nat.le_of_lt hpq
    · exact Nat.le_refl _
  · obtain rfl := (List.idxOf_inj hx).1 heq
    exact hq.le p hp.mem hp.ne

/-- Behind the end of a path only ends of paths of this length stand. -/
theorem pathTo_of_le (h : a.FirstInFirstOut order) (hperm : order.Perm a.nodes) (hy : y ∈ order)
    (hle : order.idxOf x ≤ order.idxOf y) (hx : a.PathTo x n) : a.PathTo y n := by
  -- induction on the position of `y`: its last predecessor stands in front of it
  induction hidx : order.idxOf y using Nat.strongRecOn generalizing x y n with
  | _ i ih =>
    cases n with
    | zero => exact .start
    | succ n =>
      obtain ⟨u, hu, hne, hpath⟩ := hx.exists_pred
      have hnode := (a.lt_of_mem_succ (a.mem_pred_iff.1 hu)).2
      -- `x` is no entry, and neither is any node behind it
      have hentry : x ∉ a.entries := fun hx =>
        hne ((mem_entries_iff.1 hx).2 u (a.mem_pred_iff.1 hu))
      have hentry' : y ∉ a.entries := by
        rw [mem_entries_iff_idxOf_lt h.entries] at hentry ⊢
        omega
      obtain ⟨p, hp⟩ := exists_lastPred order hnode hentry
      obtain ⟨q, hq⟩ := exists_lastPred order (mem_nodes.1 (hperm.mem_iff.1 hy)) hentry'
      have hpq := h.lastPred_le hp hq (hp.mem_order hperm).2 hle
      have hqy := h.lastPred_lt hperm hq
      have hq' := ih _ (hidx ▸ hqy) (hq.mem_order hperm).1 ((hp.le u hu hne).trans hpq) hpath rfl
      exact hq'.step (a.mem_pred_iff.1 hq.mem) hq.ne

/-- Depth does not fall along the order. -/
theorem pairwise_depth (h : a.FirstInFirstOut order) (hperm : order.Perm a.nodes) :
    order.Pairwise fun x y => a.depth x ≤ a.depth y := by
  have htop := h.isTopological hperm
  refine (pairwise_idxOf_lt htop.nodup).imp_of_mem fun {x y} _ hy hlt => ?_
  have hpath := h.pathTo_of_le hperm hy (Nat.le_of_lt hlt) (htop.isGreatest_depth x).1
  exact (htop.isGreatest_depth y).2 hpath

end FirstInFirstOut

end Adjacency

/-- The order is fully determined by the law of first in, first out: it is the one list of all nodes
in which the entries, which only loops lead to, come first in ascending order, and the others in the
order of their last predecessors, and behind the same one in the order of their last occurrences
among its successors. So the greatest number of edges, loops not counted, of a path that ends at a
node does not fall along the order. -/
theorem Digraph.topologicalOrder_fifo {κ : Type} (g : Digraph κ) (order : List Nat) :
    let a := g.adjacency
    (a.topologicalOrder = some order ↔ order.Perm g.nodes ∧ a.FirstInFirstOut order) ∧
      a.entries.Pairwise (· < ·) ∧
      (∀ v, v ∈ a.entries ↔ v < g.size ∧ ∀ u ∈ g.predecessors v, u = v) ∧
      (∀ v < g.size, v ∉ a.entries → ∃ p, a.LastPred order v p) ∧
      (a.topologicalOrder = some order →
        (∀ v, IsGreatest {n | a.PathTo v n} (a.depth v)) ∧
          order.Pairwise fun u v => a.depth u ≤ a.depth v) := by
  intro a
  refine ⟨Adjacency.topologicalOrder_eq_some_iff_firstInFirstOut, a.pairwise_entries, fun v => ?_,
    fun v hv hentry => Adjacency.exists_lastPred order hv hentry, fun h => ?_⟩
  · rw [Adjacency.mem_entries_iff, ← pred_adjacency]
    simp only [Adjacency.mem_pred_iff]
    rfl
  · have htop := Adjacency.isTopological_of_topologicalOrder_eq_some h
    have hlaw := Adjacency.firstInFirstOut_of_topologicalOrder_eq_some h
    exact ⟨htop.isGreatest_depth, hlaw.pairwise_depth htop.perm⟩

/-- Behind node `0` node `1` joins with the second copy of its edge, and so after node `2`. -/
example : (⟨#["a", "b", "c"], #[⟨0, 1⟩, ⟨0, 2⟩, ⟨0, 1⟩, ⟨2, 2⟩], by decide⟩ :
    Digraph String).adjacency.topologicalOrder = some [0, 2, 1] := by decide

end FlowBubbles
