import FlowBubbles.Digraph.TopologicalOrder
import FlowBubbles.Proofs.Reachability
import Mathlib.Data.List.Perm.Subperm
import Mathlib.Data.List.Range

/-!
# The line of nodes is a topological order

A node outside the line waits for the edges into it from the other nodes that are not dealt with, so
it joins the line when no such edge is left, and only once. The main statements are
`isTopological_of_topologicalOrder_eq_some` and `exists_topologicalOrder_iff`: the line, if all
nodes join it, is a topological order, and they do so exactly if the graph is acyclic.
-/

namespace FlowBubbles

namespace Line

variable {a : Adjacency} {s : Line} {owed owed' : Nat → Nat} {v w x : Nat} {ws rest : List Nat}

/-! ## The invariant of the line -/

/-- What holds of the line while a node is dealt with, when its edges to `w` that are still to be
looked at number `owed w`: a node waits for these and for the edges from other nodes that are not
dealt with, and is in the line exactly if it waits for none. -/
structure Sound (a : Adjacency) (owed : Nat → Nat) (s : Line) : Prop where
  nodup : s.order.toList.Nodup
  lt_size : ∀ x ∈ s.order.toList, x < a.size
  dealt_le : s.dealt ≤ s.order.toList.length
  waiting_eq : ∀ w, s.waiting.get w =
    (a.pred w).countP (fun u => u ≠ w ∧ u ∉ s.order.toList.take s.dealt) + owed w
  mem_iff : ∀ w < a.size, w ∈ s.order.toList ↔ s.waiting.get w = 0
  before : ∀ y ∈ s.order.toList, ∀ x, y ∈ a.succ x → x ≠ y →
    [x, y].Sublist s.order.toList

/-- The edges from `v` to the nodes `ws`, apart from loops. -/
def edgesTo (v : Nat) (ws : List Nat) (w : Nat) : Nat := if w = v then 0 else ws.count w

theorem edgesTo_nil : edgesTo v [] = fun _ => 0 := by
  funext w
  simp [edgesTo]

/-- The edges that a node waits for are those from the next node and those from all others that are
not dealt with. -/
theorem countP_not_mem (us : List Nat) {ds : List Nat} (hv : v ∉ ds) (w : Nat) :
    us.countP (fun u => u ≠ w ∧ u ∉ ds) =
      us.countP (fun u => u ≠ w ∧ u ∉ ds ++ [v]) + if w = v then 0 else us.count v := by
  induction us with
  | nil => simp
  | cons u us ih =>
    rw [List.countP_cons, List.countP_cons, List.count_cons, ih]
    by_cases huv : u = v
    · subst huv
      by_cases hwu : w = u
      · simp [hwu]
      · simp [hwu, hv, Ne.symm hwu]
        omega
    · simp [huv]
      split <;> omega

/-- When no edge is left that a node waits for, the other nodes that precede it are dealt with. -/
theorem mem_of_countP_not_mem {us ds : List Nat} (hzero : us.countP (fun u => u ≠ w ∧ u ∉ ds) = 0)
    (hv : v ∈ us) (hne : v ≠ w) : v ∈ ds := by
  by_contra hmem
  exact List.countP_eq_zero.1 hzero v hv (by simp [hne, hmem])

/-- A node waits for one edge less, and joins the line if that was the last one. -/
theorem Sound.lower {k : Nat} {order : Array Nat} (h : Sound a owed s) (joined : List Nat)
    (hx : x < a.size) (hk : s.waiting.get x = k + 1) (howed : owed' x + 1 = owed x)
    (hother : ∀ w, w ≠ x → owed' w = owed w)
    (hjoined : ∀ y, y ∈ joined ↔ y = x ∧ k = 0) (hnodup : joined.Nodup)
    (horder : order.toList = s.order.toList ++ joined) :
    Sound a owed' { s with order := order, waiting := s.waiting.set x k } := by
  have hnot : x ∉ s.order.toList := by
    rw [h.mem_iff x hx, hk]
    simp
  have htake : order.toList.take s.dealt = s.order.toList.take s.dealt := by
    rw [horder, List.take_append_of_le_length h.dealt_le]
  have hwaiting := h.waiting_eq x
  rw [hk] at hwaiting
  refine ⟨?_, ?_, ?_, ?_, ?_, ?_⟩
  · rw [horder, List.nodup_append]
    refine ⟨h.nodup, hnodup, ?_⟩
    rintro y hy _ hy' rfl
    exact hnot (((hjoined y).1 hy').1 ▸ hy)
  · intro y hy
    rw [horder, List.mem_append, hjoined] at hy
    rcases hy with hy | ⟨rfl, -⟩
    · exact h.lt_size y hy
    · exact hx
  · rw [horder, List.length_append]
    exact Nat.le_add_right_of_le h.dealt_le
  · intro w
    rw [NodeMap.get_set, htake]
    by_cases hwx : w = x
    · subst hwx
      rw [if_pos rfl]
      omega
    · rw [if_neg hwx, hother w hwx, h.waiting_eq]
  · intro w hw
    rw [horder, List.mem_append, hjoined, NodeMap.get_set]
    by_cases hwx : w = x
    · simp [hwx, hnot]
    · simp [hwx, h.mem_iff w hw]
  · intro y hy u hedge hne
    rw [horder, List.mem_append, hjoined] at hy
    rw [horder]
    rcases hy with hy | ⟨rfl, hk₀⟩
    · exact (h.before y hy u hedge hne).trans (List.sublist_append_left ..)
    · -- no edge is left, so the sources of all edges are dealt with
      have hzero : (a.pred y).countP (fun u => u ≠ y ∧ u ∉ s.order.toList.take s.dealt) = 0 := by
        omega
      have hmem := mem_of_countP_not_mem hzero (a.mem_pred_iff.2 hedge) hne
      have hleft := List.singleton_sublist.2 (List.mem_of_mem_take hmem)
      exact hleft.append (List.singleton_sublist.2 ((hjoined y).2 ⟨rfl, hk₀⟩))

/-- Dealing with one edge of the next node keeps the invariant. -/
theorem Sound.release (h : Sound a (edgesTo v (x :: ws)) s) (hx : x < a.size) :
    Sound a (edgesTo v ws) (Line.release v s x) := by
  have hother : ∀ w, w ≠ x → edgesTo v ws w = edgesTo v (x :: ws) w := by
    intro w hw
    rw [edgesTo, edgesTo, List.count_cons_of_ne (Ne.symm hw)]
  by_cases hxv : x = v
  · -- nobody waits for a loop
    have howed : edgesTo v ws = edgesTo v (x :: ws) := by
      funext w
      by_cases hw : w = x
      · simp [edgesTo, hw, hxv]
      · exact hother w hw
    rwa [howed, Line.release, if_pos hxv]
  · have howed : edgesTo v ws x + 1 = edgesTo v (x :: ws) x := by
      simp [edgesTo, hxv]
    have hk : s.waiting.get x = s.waiting.get x - 1 + 1 := by
      have := h.waiting_eq x
      omega
    rw [Line.release, if_neg hxv]
    by_cases hzero : s.waiting.get x - 1 = 0
    · exact h.lower [x] hx hk howed hother (by simp [hzero]) (by simp) (by simp [hzero])
    · exact h.lower [] hx hk howed hother (by simp [hzero]) (by simp) (by simp [hzero])

/-- When the first edges of a node are dealt with, the others are still owed. -/
theorem Sound.foldl_release_append (h : Sound a (edgesTo v (ws ++ rest)) s)
    (hws : ∀ x ∈ ws, x < a.size) : Sound a (edgesTo v rest) (ws.foldl (Line.release v) s) := by
  induction ws generalizing s with
  | nil => exact h
  | cons x ws ih =>
    rw [List.foldl_cons]
    exact ih (h.release (hws x List.mem_cons_self)) fun y hy => hws y (List.mem_cons_of_mem _ hy)

theorem Sound.foldl_release (h : Sound a (edgesTo v ws) s) (hws : ∀ x ∈ ws, x < a.size) :
    Sound a (fun _ => 0) (ws.foldl (Line.release v) s) := by
  rw [← List.append_nil ws] at h
  exact edgesTo_nil (v := v) ▸ h.foldl_release_append hws

theorem dealt_foldl_release (v : Nat) (ws : List Nat) (s : Line) :
    (ws.foldl (Line.release v) s).dealt = s.dealt := by
  induction ws generalizing s with
  | nil => rfl
  | cons x ws ih =>
    rw [List.foldl_cons, ih, Line.release]
    split <;> rfl

theorem advance_eq (hs : s.dealt < s.order.size) :
    Line.advance a s =
      (a.succ s.order[s.dealt]).foldl (Line.release s.order[s.dealt])
        { s with dealt := s.dealt + 1 } := by
  rw [Line.advance, Array.getElem?_eq_getElem hs]

theorem dealt_advance (hs : s.dealt < s.order.size) : (Line.advance a s).dealt = s.dealt + 1 := by
  rw [advance_eq hs, dealt_foldl_release]

/-- When the next node counts as dealt with, all edges out of it are owed. -/
theorem Sound.deal (h : Sound a (fun _ => 0) s) (hs : s.dealt < s.order.size) :
    Sound a (edgesTo s.order[s.dealt] (a.succ s.order[s.dealt]))
      { s with dealt := s.dealt + 1 } := by
  have hs : s.dealt < s.order.toList.length := hs
  refine ⟨h.nodup, h.lt_size, hs, fun w => ?_, h.mem_iff, h.before⟩
  have htake := List.take_succ_eq_append_getElem hs
  have hnot : s.order.toList[s.dealt] ∉ s.order.toList.take s.dealt := by
    have hnodup := h.nodup.sublist (List.take_sublist (s.dealt + 1) _)
    rw [htake, List.nodup_append] at hnodup
    exact fun hmem => hnodup.2.2 _ hmem _ (by simp) rfl
  rw [h.waiting_eq, htake, countP_not_mem _ hnot, a.count_pred]
  rfl

/-- Dealing with the next node keeps the invariant. -/
theorem Sound.advance (h : Sound a (fun _ => 0) s) (hs : s.halted = false) :
    Sound a (fun _ => 0) (Line.advance a s) := by
  have hs : s.dealt < s.order.size := by simpa [halted] using hs
  rw [advance_eq hs]
  exact (h.deal hs).foldl_release fun x hx => (a.lt_of_mem_succ hx).2

/-! ## The whole run -/

theorem Sound.start (a : Adjacency) : Sound a (fun _ => 0) (Line.start a) := by
  have hwaiting : ∀ w, (waitingAtStart a).get w = (a.pred w).countP (· != w) := by
    intro w
    rw [waitingAtStart, NodeMap.get_foldl_set, NodeMap.get_const]
    split
    · rfl
    · rename_i hw
      refine (List.countP_eq_zero.2 fun u hu => ?_).symm
      exact absurd (a.lt_of_mem_succ (a.mem_pred_iff.1 hu)).2 (by simpa using hw)
  have hmem : ∀ w, w ∈ (Line.start a).order.toList ↔ w < a.size ∧ (waitingAtStart a).get w = 0 := by
    simp [Line.start]
  refine ⟨?_, fun x hx => ((hmem x).1 hx).1, Nat.zero_le _, ?_, ?_, ?_⟩
  · exact List.nodup_range.filter _
  · intro w
    rw [Line.start, hwaiting]
    exact List.countP_congr fun u _ => by simp
  · intro w hw
    rw [hmem]
    simp [hw, Line.start]
  · intro y hy u hedge hne
    have hzero := ((hmem y).1 hy).2
    rw [hwaiting, List.countP_eq_zero] at hzero
    exact absurd hne (by simpa using hzero u (a.mem_pred_iff.2 hedge))

/-- The line when all of its nodes are dealt with. -/
def final (a : Adjacency) : Line := iterate halted (advance a) a.size (start a)

theorem sound_final (a : Adjacency) : Sound a (fun _ => 0) (final a) :=
  iterate_invariant (fun _ hs h => h.advance hs) _ _ (Sound.start a)

theorem Sound.length_le (h : Sound a owed s) : s.order.toList.length ≤ a.size := by
  have hsubset : s.order.toList ⊆ a.nodes := fun x hx => Adjacency.mem_nodes.2 (h.lt_size x hx)
  have hle := (List.subperm_of_subset h.nodup hsubset).length_le
  rwa [Adjacency.nodes, List.length_range] at hle

theorem halted_final (a : Adjacency) : (final a).halted = true := by
  refine @halted_iterate _ halted (advance a) (Sound a fun _ => 0) (fun s => a.size - s.dealt)
    (fun _ hs h => h.advance hs) (fun s hs h => ?_) _ _ (Sound.start a) (Nat.sub_le ..)
  have hle := h.length_le
  have hlt : s.dealt < s.order.size := by simpa [halted] using hs
  rw [Array.length_toList] at hle
  rw [dealt_advance hlt]
  omega

/-- A node that is missing in the end has a missing predecessor. -/
theorem exists_missing_pred (hw : w < a.size) (hmem : w ∉ (final a).order.toList) :
    ∃ u, u ∉ (final a).order.toList ∧ w ∈ a.succ u ∧ u ≠ w := by
  have h := sound_final a
  have hwaiting := h.waiting_eq w
  have hall : (final a).order.toList.take (final a).dealt = (final a).order.toList :=
    List.take_of_length_le (by simpa [halted] using halted_final a)
  rw [h.mem_iff w hw, hwaiting, hall, Nat.add_zero, List.countP_eq_zero] at hmem
  push Not at hmem
  obtain ⟨u, hu, hne⟩ := hmem
  simp only [ne_eq, decide_eq_true_eq] at hne
  exact ⟨u, hne.2, a.mem_pred_iff.1 hu, hne.1⟩

end Line

namespace Adjacency

variable {a : Adjacency} {order : List Nat}

theorem topologicalOrder_eq_some_iff :
    a.topologicalOrder = some order ↔
      (Line.final a).order.size = a.size ∧ (Line.final a).order.toList = order := by
  rw [topologicalOrder, ← Line.final]
  simp

/-- The order of the nodes is topological. -/
theorem isTopological_of_topologicalOrder_eq_some (h : a.topologicalOrder = some order) :
    a.IsTopological order := by
  obtain ⟨hsize, rfl⟩ := topologicalOrder_eq_some_iff.1 h
  have hsound := Line.sound_final a
  have hsubset : (Line.final a).order.toList ⊆ a.nodes :=
    fun x hx => mem_nodes.2 (hsound.lt_size x hx)
  have hperm : (Line.final a).order.toList.Perm a.nodes :=
    (List.subperm_of_subset hsound.nodup hsubset).perm_of_length_le (by simp [nodes, hsize])
  refine ⟨hperm, fun u v hedge hne => ?_⟩
  have hv : v ∈ (Line.final a).order.toList :=
    hperm.mem_iff.2 (mem_nodes.2 (a.lt_of_mem_succ hedge).2)
  have hsub := hsound.before v hv u hedge hne
  simpa using (pairwise_idxOf_lt hsound.nodup).sublist hsub

/-- There is an order of the nodes exactly if no cycle passes through two or more of them. -/
theorem exists_topologicalOrder_iff : (∃ order, a.topologicalOrder = some order) ↔ a.Acyclic := by
  constructor
  · rintro ⟨order, h⟩
    exact (isTopological_of_topologicalOrder_eq_some h).acyclic
  · intro hacyclic
    refine ⟨_, topologicalOrder_eq_some_iff.2 ⟨?_, rfl⟩⟩
    by_contra hsize
    have hmissing : ∃ w, w < a.size ∧ w ∉ (Line.final a).order.toList := by
      by_contra hnone
      push Not at hnone
      have hsubset : a.nodes ⊆ (Line.final a).order.toList := fun x hx => hnone x (mem_nodes.1 hx)
      have hle := (List.subperm_of_subset List.nodup_range hsubset).length_le
      have hle' := (Line.sound_final a).length_le
      simp only [List.length_range, Array.length_toList] at hle hle'
      omega
    obtain ⟨w, hw⟩ := hmissing
    -- the first of the missing nodes has no missing predecessor
    obtain ⟨v, ⟨hv, hmem⟩, hfirst⟩ :=
      hacyclic.exists_first (S := fun w => w < a.size ∧ w ∉ (Line.final a).order.toList) hw
    obtain ⟨u, hu, hedge, hne⟩ := Line.exists_missing_pred hv hmem
    exact hne (hfirst u ⟨(a.lt_of_mem_succ hedge).1, hu⟩ hedge)

end Adjacency

end FlowBubbles
