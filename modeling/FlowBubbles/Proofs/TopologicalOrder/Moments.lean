import FlowBubbles.Proofs.Cycles

/-!
# The line, edge by edge

`Line.Meets` names the moments of a run: the times at which an edge is dealt with next. At each of
them the target of the edge, unless the edge is a loop, waits for this edge and stands outside the
line. So whatever the number of parallel edges, no number of edges is lowered below zero and no node
joins the line twice, also if not all nodes join it in the end
(`Digraph.topologicalOrder_joins_once`).
-/

namespace FlowBubbles

namespace Line

variable {a : Adjacency} {s : Line} {v w : Nat}

/-- The line when `n` nodes are dealt with, or all of its nodes. -/
def after (a : Adjacency) (n : Nat) : Line := iterate halted (advance a) n (start a)

/-- At some moment of the run the line is `s` and the edge from `v` to `w` is dealt with next: `v`
is the next node of the line, and its edges in front of this one are dealt with. -/
def Meets (a : Adjacency) (v w : Nat) (s : Line) : Prop :=
  ∃ n ws rest, (after a n).order[(after a n).dealt]? = some v ∧ a.succ v = ws ++ w :: rest ∧
    s = ws.foldl (release v) { after a n with dealt := (after a n).dealt + 1 }

theorem sound_after (a : Adjacency) (n : Nat) : Sound a (fun _ => 0) (after a n) :=
  iterate_invariant (fun _ hs h => h.advance hs) n _ (Sound.start a)

/-- At every moment the edge that comes next is owed. -/
theorem Meets.sound (h : Meets a v w s) : ∃ rest, Sound a (edgesTo v (w :: rest)) s := by
  obtain ⟨n, ws, rest, hv, hsucc, rfl⟩ := h
  obtain ⟨hdealt, rfl⟩ := Array.getElem?_eq_some_iff.1 hv
  have hdeal := (sound_after a n).deal hdealt
  rw [hsucc] at hdeal
  refine ⟨rest, hdeal.foldl_release_append fun x hx => ?_⟩
  exact (a.lt_of_mem_succ (hsucc ▸ List.mem_append_left _ hx)).2

theorem Meets.mem_succ (h : Meets a v w s) : w ∈ a.succ v := by
  obtain ⟨n, ws, rest, -, hsucc, -⟩ := h
  rw [hsucc]
  exact List.mem_append_right _ List.mem_cons_self

/-- The target of the edge that comes next waits for it. -/
theorem Meets.waiting_pos (h : Meets a v w s) (hne : w ≠ v) : 0 < s.waiting.get w := by
  obtain ⟨rest, hsound⟩ := h.sound
  rw [hsound.waiting_eq, edgesTo, if_neg hne, List.count_cons_self]
  omega

/-- The target of the edge that comes next stands outside the line. -/
theorem Meets.not_mem (h : Meets a v w s) (hne : w ≠ v) : w ∉ s.order.toList := by
  obtain ⟨rest, hsound⟩ := h.sound
  rw [hsound.mem_iff w (a.lt_of_mem_succ h.mem_succ).2]
  exact Nat.ne_of_gt (h.waiting_pos hne)

end Line

/-- There is an order exactly if no closed path passes through two or more nodes. It holds every
node once, and every edge but a loop leads forward in it. In any run, whether it ends with an order
or not, a node stands in the line at most once, and at every moment the edge that comes next, if it
is no loop, is one that its target waits for outside the line: its number of edges is not lowered
below zero, and it does not join a second time. -/
theorem Digraph.topologicalOrder_joins_once {κ : Type} (g : Digraph κ) :
    let a := g.adjacency
    ((∃ order, a.topologicalOrder = some order) ↔
        ∀ v p, Path (fun u v => v ∈ a.succ u) v v p → ∀ u ∈ p, u = v) ∧
      (∀ order, a.topologicalOrder = some order →
        order.Perm g.nodes ∧
          ∀ e ∈ g.edges, e.source ≠ e.target → order.idxOf e.source < order.idxOf e.target) ∧
      (Line.final a).order.toList.Nodup ∧
      ∀ v w s, Line.Meets a v w s →
        s.order.toList.Nodup ∧ (w ≠ v → 0 < s.waiting.get w ∧ w ∉ s.order.toList) := by
  intro a
  refine ⟨Adjacency.exists_topologicalOrder_iff.trans Adjacency.acyclic_iff_closed_paths,
    fun order horder => ?_, (Line.sound_final a).nodup, fun v w s h => ?_⟩
  · have htop := Adjacency.isTopological_of_topologicalOrder_eq_some horder
    refine ⟨htop.perm, fun e he hne => htop.forward _ _ ?_ hne⟩
    exact mem_succ_adjacency.2 (Array.mem_toList_iff.2 he)
  · obtain ⟨rest, hsound⟩ := h.sound
    exact ⟨hsound.nodup, fun hne => ⟨h.waiting_pos hne, h.not_mem hne⟩⟩

end FlowBubbles
