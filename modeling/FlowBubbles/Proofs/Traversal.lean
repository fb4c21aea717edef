import FlowBubbles.Digraph.Traversal
import FlowBubbles.Proofs.Reachability
import Mathlib.Data.List.Perm.Subperm
import Mathlib.Data.List.Range

/-!
# A visit finds what a node reaches

A node is marked when it is put on the stack and not put there again, so a visit ends after at most
as many steps as there are nodes (`halted_visitEnd`). What is marked is reached from the start, and
the edges out of a visited node lead to marked nodes, so in the end the marked nodes are those that
the start reaches (`get_reached_iff`).
-/

namespace FlowBubbles

variable {a : Adjacency} {start v w : Nat} {ws : List Nat} {s : Visit}

/-! ## Putting nodes on the stack -/

/-- The nodes that were put on the stack so far are marked, are different from each other, and are
reached from the start. -/
structure Visit.Sound (a : Adjacency) (start : Nat) (s : Visit) : Prop where
  nodup : (s.visited.toList ++ s.pending).Nodup
  marked_iff : ∀ v, s.marked.get v = true ↔ v ∈ s.visited.toList ++ s.pending
  lt_size : ∀ v ∈ s.visited.toList ++ s.pending, v < a.size
  reaches : ∀ v ∈ s.visited.toList ++ s.pending, a.Reaches start v

namespace Visit

theorem get_marked_push : (s.push v).marked.get w = true ↔ s.marked.get w = true ∨ w = v := by
  unfold push
  split
  · rename_i hv
    exact ⟨.inl, fun h => h.elim id fun heq => heq ▸ hv⟩
  · by_cases hw : w = v <;> simp [hw]

theorem get_marked_foldl_push :
    (ws.foldl push s).marked.get w = true ↔ s.marked.get w = true ∨ w ∈ ws := by
  induction ws generalizing s with
  | nil => simp
  | cons v ws ih => rw [List.foldl_cons, ih, get_marked_push, List.mem_cons, or_assoc]

theorem visited_foldl_push : (ws.foldl push s).visited = s.visited := by
  induction ws generalizing s with
  | nil => rfl
  | cons v ws ih =>
    rw [List.foldl_cons, ih, push]
    split <;> rfl

theorem Sound.push (h : s.Sound a start) (hv : v < a.size) (hreach : a.Reaches start v) :
    (s.push v).Sound a start := by
  unfold Visit.push
  split
  · exact h
  · rename_i hmarked
    have hnew : v ∉ s.visited.toList ++ s.pending := fun hmem => hmarked ((h.marked_iff v).2 hmem)
    have hperm : (s.visited.toList ++ v :: s.pending).Perm (v :: (s.visited.toList ++ s.pending)) :=
      List.perm_middle
    refine ⟨hperm.nodup_iff.2 (List.nodup_cons.2 ⟨hnew, h.nodup⟩), fun w => ?_, ?_, ?_⟩
    · rw [hperm.mem_iff, List.mem_cons, ← h.marked_iff, NodeMap.get_set]
      by_cases hw : w = v <;> simp [hw]
    · intro w hw
      rcases List.mem_cons.1 (hperm.mem_iff.1 hw) with rfl | hw
      · exact hv
      · exact h.lt_size w hw
    · intro w hw
      rcases List.mem_cons.1 (hperm.mem_iff.1 hw) with rfl | hw
      · exact hreach
      · exact h.reaches w hw

theorem Sound.foldl_push (h : s.Sound a start) (hws : ∀ w ∈ ws, w < a.size ∧ a.Reaches start w) :
    (ws.foldl Visit.push s).Sound a start := by
  induction ws generalizing s with
  | nil => exact h
  | cons v ws ih =>
    obtain ⟨hv, hrest⟩ := List.forall_mem_cons.1 hws
    exact ih (h.push hv.1 hv.2) hrest

theorem Sound.length_le (h : s.Sound a start) :
    s.visited.toList.length + s.pending.length ≤ a.size := by
  have hsubset : s.visited.toList ++ s.pending ⊆ a.nodes := fun v hv =>
    Adjacency.mem_nodes.2 (h.lt_size v hv)
  have hle := (List.subperm_of_subset h.nodup hsubset).length_le
  rwa [List.length_append, Adjacency.nodes, List.length_range] at hle

end Visit

/-! ## One step -/

/-- What holds between the steps of a visit: the start is marked, and the edges out of visited nodes
lead to marked nodes. -/
structure Visit.Closed (a : Adjacency) (start : Nat) (s : Visit) : Prop extends s.Sound a start where
  start_mem : s.marked.get start = true
  closed : ∀ v ∈ s.visited, ∀ w ∈ a.succ v, s.marked.get w = true

namespace Visit

/-- A visited node is taken off the stack. -/
theorem Sound.take {rest : List Nat} (h : s.Sound a start) (hpending : s.pending = v :: rest) :
    Sound a start { s with pending := rest, visited := s.visited.push v } := by
  have hlist : (s.visited.push v).toList ++ rest = s.visited.toList ++ s.pending := by
    rw [Array.toList_push, hpending, List.append_assoc]
    rfl
  exact ⟨hlist ▸ h.nodup, hlist ▸ h.marked_iff, hlist ▸ h.lt_size, hlist ▸ h.reaches⟩

theorem Sound.next (h : s.Sound a start) : (a.visitNext s).Sound a start := by
  unfold Adjacency.visitNext
  split
  · exact h
  · rename_i v rest hpending
    have hmem : v ∈ s.visited.toList ++ s.pending := by simp [hpending]
    refine (h.take hpending).foldl_push fun w hw => ?_
    rw [List.mem_reverse] at hw
    exact ⟨(a.lt_of_mem_succ hw).2, (h.reaches v hmem).tail hw⟩

theorem Closed.next (h : s.Closed a start) : (a.visitNext s).Closed a start := by
  have hsound := h.toSound.next
  unfold Adjacency.visitNext at hsound ⊢
  split at hsound
  · exact h
  · rename_i v rest hpending
    refine ⟨hsound, get_marked_foldl_push.2 (.inl h.start_mem), fun x hx w hw => ?_⟩
    rw [visited_foldl_push, Array.mem_push] at hx
    rw [get_marked_foldl_push]
    rcases hx with hx | rfl
    · exact .inl (h.closed x hx w hw)
    · exact .inr (List.mem_reverse.2 hw)

theorem size_visited_next {rest : List Nat} (hpending : s.pending = v :: rest) :
    (a.visitNext s).visited.size = s.visited.size + 1 := by
  rw [Adjacency.visitNext, hpending]
  simp only [visited_foldl_push, Array.size_push]

end Visit

/-! ## The whole visit -/

namespace Adjacency

theorem visitStart_of_le (hstart : a.size ≤ start) : a.visitStart start = ⟨.const false, [], #[]⟩ :=
  if_neg (Nat.not_lt_of_le hstart)

theorem sound_visitStart (a : Adjacency) (start : Nat) : (a.visitStart start).Sound a start := by
  rcases Nat.lt_or_ge start a.size with hstart | hstart
  · rw [visitStart, if_pos hstart]
    refine ⟨by simp, fun v => ?_, by simpa using hstart, by simpa using Reaches.refl start⟩
    by_cases hv : v = start <;> simp [hv]
  · rw [visitStart_of_le hstart]
    exact ⟨by simp, by simp, by simp, by simp⟩

theorem closed_visitStart (hstart : start < a.size) : (a.visitStart start).Closed a start := by
  refine ⟨a.sound_visitStart start, ?_, ?_⟩
  · simp [visitStart, hstart]
  · simp [visitStart, hstart]

theorem closed_visitEnd (hstart : start < a.size) : (a.visitEnd start).Closed a start :=
  iterate_invariant (fun _ _ h => h.next) _ _ (closed_visitStart hstart)

/-- The fuel of a visit suffices, also from a start outside the graph. -/
theorem halted_visitEnd (a : Adjacency) (start : Nat) : (a.visitEnd start).pending = [] := by
  have hhalted := @halted_iterate _ (fun s : Visit => s.pending.isEmpty) a.visitNext
    (Visit.Sound a start) (fun s => a.size - s.visited.size) (fun _ _ h => h.next)
    (fun s hs h => ?_) a.size _ (a.sound_visitStart start) (Nat.sub_le _ _)
  · exact List.isEmpty_iff.1 hhalted
  · obtain ⟨v, rest, hpending⟩ := List.exists_cons_of_ne_nil (List.isEmpty_eq_false_iff.1 hs)
    have hle := h.length_le
    rw [hpending, List.length_cons, Array.length_toList] at hle
    rw [Visit.size_visited_next hpending]
    omega

/-- The marked nodes are those that the start reaches. -/
theorem get_reached_iff (hstart : start < a.size) :
    (a.reached start).get v = true ↔ a.Reaches start v := by
  have h := closed_visitEnd hstart
  have hpending := halted_visitEnd a start
  have hmarked : ∀ w, (a.reached start).get w = true ↔ w ∈ (a.visitEnd start).visited := by
    intro w
    rw [reached, h.marked_iff, hpending, List.append_nil, Array.mem_toList_iff]
  constructor
  · intro hv
    exact h.reaches v ((h.marked_iff v).1 hv)
  · intro hreach
    refine hreach.mem_of_closed (S := fun w => (a.reached start).get w = true) (fun x y hx hedge => ?_)
      h.start_mem
    exact h.closed x ((hmarked x).1 hx) y hedge

end Adjacency

end FlowBubbles
