import FlowBubbles.Proofs.Checked.Reach
import FlowBubbles.Proofs.Checked.Rooting

/-!
# The order of a visit

A node is put on the stack when a node that leads to it is visited, and it is visited later. So the
start is visited first, and every other node after one that leads to it (`Visit.Ordered`). Together
with what a visit finds, this says what it lists and marks, over a graph as well as over a graph
with a node in front of its entries (`Digraph.visit_finds_reachable`).
-/

namespace FlowBubbles

variable {a : Adjacency} {start v w : Nat} {ws : List Nat} {s : Visit}

namespace Visit

/-- The start comes first, and whatever else is visited or on the stack has a predecessor among the
nodes that are visited before it. -/
structure Ordered (a : Adjacency) (start : Nat) (s : Visit) : Prop where
  head : (s.visited.toList ++ s.pending).head? = some start
  visited : ∀ l₁ v l₂, s.visited.toList = l₁ ++ v :: l₂ → v = start ∨ ∃ u ∈ l₁, v ∈ a.succ u
  pending : ∀ v ∈ s.pending, v = start ∨ ∃ u ∈ s.visited.toList, v ∈ a.succ u

theorem mem_pending_push (h : w ∈ (s.push v).pending) : w = v ∨ w ∈ s.pending := by
  unfold push at h
  split at h
  · exact .inr h
  · exact List.mem_cons.1 h

theorem mem_pending_foldl_push (h : w ∈ (ws.foldl push s).pending) :
    w ∈ ws ∨ w ∈ s.pending := by
  induction ws generalizing s with
  | nil => exact .inr h
  | cons v ws ih =>
    rcases ih h with hw | hw
    · exact .inl (List.mem_cons_of_mem v hw)
    · refine (mem_pending_push hw).imp_left fun heq => ?_
      rw [heq]
      exact List.mem_cons_self

theorem ordered_visitStart (hstart : start < a.size) : (a.visitStart start).Ordered a start := by
  unfold Adjacency.visitStart
  rw [if_pos hstart]
  refine ⟨rfl, fun l₁ v l₂ h => ?_, fun v hv => .inl (List.mem_singleton.1 hv)⟩
  simp at h

/-- A node that is taken off the stack comes after a node that leads to it. -/
theorem Ordered.take {rest l₁ l₂ : List Nat} (h : s.Ordered a start)
    (hpending : s.pending = v :: rest) (hsplit : s.visited.toList ++ [v] = l₁ ++ w :: l₂) :
    w = start ∨ ∃ u ∈ l₁, w ∈ a.succ u := by
  rcases List.eq_nil_or_concat l₂ with rfl | ⟨l, x, rfl⟩
  · obtain ⟨rfl, hv⟩ := List.append_inj' hsplit rfl
    obtain rfl : v = w := by simpa using hv
    exact h.pending v (hpending ▸ List.mem_cons_self)
  · have hsplit' : s.visited.toList ++ [v] = (l₁ ++ w :: l) ++ [x] := by simpa using hsplit
    exact h.visited l₁ w l (List.append_inj' hsplit' rfl).1

theorem Ordered.next (h : s.Ordered a start) : (a.visitNext s).Ordered a start := by
  unfold Adjacency.visitNext
  split
  · exact h
  · rename_i v rest hpending
    have hvisited : ((a.succ v).reverse.foldl Visit.push
        { s with pending := rest, visited := s.visited.push v }).visited = s.visited.push v :=
      visited_foldl_push
    refine ⟨?_, fun l₁ w l₂ hsplit => ?_, fun w hw => ?_⟩
    · -- the list of visited nodes is not empty any more, and so the stack does not matter
      have hhead := h.head
      rw [hpending] at hhead
      rw [hvisited]
      simpa [List.head?_append] using hhead
    · rw [hvisited, Array.toList_push] at hsplit
      exact h.take hpending hsplit
    · rw [hvisited, Array.toList_push]
      rcases mem_pending_foldl_push hw with hw | hw
      · exact .inr ⟨v, List.mem_append_right _ (List.mem_singleton.2 rfl), List.mem_reverse.1 hw⟩
      · refine (h.pending w (hpending ▸ List.mem_cons_of_mem v hw)).imp_right fun hpred => ?_
        obtain ⟨u, hu, hedge⟩ := hpred
        exact ⟨u, List.mem_append_left _ hu, hedge⟩

theorem ordered_visitEnd (hstart : start < a.size) : (a.visitEnd start).Ordered a start :=
  iterate_invariant (fun _ _ h => h.next) _ _ (ordered_visitStart hstart)

end Visit

/-! ## What a visit lists and marks -/

/-- Whether a list of nodes and a table of marks tell what `start` reaches along `R` in a graph of
`n` nodes: the list starts with `start`, has each node that is reached once, and has each other one
behind a node that leads to it; the marks are on the nodes that are reached. A start outside the
graph reaches nothing. -/
structure Finds (R : Nat → Nat → Prop) (n start : Nat) (l : List Nat) (marks : NodeMap Bool) :
    Prop where
  head : l.head? = if start < n then some start else none
  nodup : l.Nodup
  mem_iff : ∀ v, v ∈ l ↔ start < n ∧ Relation.ReflTransGen R start v
  pred : ∀ l₁ v l₂, l = l₁ ++ v :: l₂ → l₁ = [] ∨ ∃ u ∈ l₁, R u v
  marks_iff : ∀ v, marks.get v = true ↔ start < n ∧ Relation.ReflTransGen R start v

namespace Adjacency

theorem visitEnd_of_le (hstart : a.size ≤ start) : a.visitEnd start = ⟨.const false, [], #[]⟩ := by
  rw [visitEnd, visitStart_of_le hstart]
  exact iterate_of_halted rfl a.size

/-- What is marked in the end is visited. -/
theorem mem_visit_iff : v ∈ a.visit start ↔ (a.reached start).get v = true := by
  have hsound : (a.visitEnd start).Sound a start :=
    iterate_invariant (fun _ _ h => h.next) _ _ (a.sound_visitStart start)
  rw [reached, hsound.marked_iff, halted_visitEnd, List.append_nil]
  rfl

/-- A visit finds what its start reaches. -/
theorem finds_visit (a : Adjacency) (start : Nat) :
    Finds (fun u v => v ∈ a.succ u) a.size start (a.visit start) (a.reached start) := by
  rcases Nat.lt_or_ge start a.size with hstart | hstart
  · have hclosed := closed_visitEnd hstart
    have hordered := Visit.ordered_visitEnd hstart
    have hnodup := hclosed.nodup
    have hhead := hordered.head
    have hpending := halted_visitEnd a start
    rw [hpending, List.append_nil] at hnodup hhead
    have hmarks : ∀ v, (a.reached start).get v = true ↔
        start < a.size ∧ a.Reaches start v := by
      intro v
      rw [get_reached_iff hstart, and_iff_right hstart]
    refine ⟨?_, hnodup, fun v => mem_visit_iff.trans (hmarks v), fun l₁ v l₂ hsplit => ?_, hmarks⟩
    · rw [if_pos hstart]
      exact hhead
    · refine or_iff_not_imp_left.2 fun hne => ?_
      refine (hordered.visited l₁ v l₂ hsplit).resolve_left fun heq => ?_
      -- the start is the first node of the list, and it is there once
      obtain ⟨u, l, rfl⟩ := List.exists_cons_of_ne_nil hne
      have hsplit' : (a.visitEnd start).visited.toList = u :: (l ++ v :: l₂) := hsplit
      rw [hsplit'] at hhead hnodup
      rw [List.head?_cons, Option.some.injEq] at hhead
      rw [hhead, heq] at hnodup
      simp at hnodup
  · have hmarks : ∀ v, (a.reached start).get v = true ↔
        start < a.size ∧ a.Reaches start v := by
      intro v
      have hlt : ¬start < a.size := by omega
      simp [reached, visitEnd_of_le hstart, hlt]
    have hnil : a.visit start = [] := by simp [visit, visitEnd_of_le hstart]
    refine ⟨?_, ?_, fun v => mem_visit_iff.trans (hmarks v), fun l₁ v l₂ hsplit => ?_, hmarks⟩
    · rw [hnil, if_neg (by omega)]
      rfl
    · rw [hnil]
      exact List.nodup_nil
    · rw [hnil] at hsplit
      simp at hsplit

end Adjacency

/-- The visit of a graph comes to its end. From a node of the graph it lists this node first and
then, once each, the other nodes that it reaches, each one behind a node with an edge to it; the
table of marks has a mark exactly at these nodes. From a start outside the graph nothing is listed
or marked. The same holds of a graph with a node in front of its entries, along its edges and those
from that node to the entries. -/
theorem Digraph.visit_finds_reachable {κ : Type} (g : Digraph κ) (start : Nat) :
    let a := g.adjacency
    let w := g.storage.view
    (Checked.visit? w start = some (a.visit start) ∧
      Checked.reached? w start = some ⟨g.size, a.reached start⟩ ∧
      Finds (fun u v => ⟨u, v⟩ ∈ g.edges) g.size start (a.visit start) (a.reached start)) ∧
    Checked.visit? (w.withSuperRoot a.entries) start = some (a.withSuperRoot.visit start) ∧
      Checked.reached? (w.withSuperRoot a.entries) start =
        some ⟨g.size + 1, a.withSuperRoot.reached start⟩ ∧
      Finds (fun u v => ⟨u, v⟩ ∈ g.edges ∨ u = g.size ∧ v ∈ a.entries) (g.size + 1) start
        (a.withSuperRoot.visit start) (a.withSuperRoot.reached start) := by
  intro a w
  have hshows : w.Shows a := g.shows_storage
  have hedges : (fun u v => v ∈ a.succ u) = fun u v => ⟨u, v⟩ ∈ g.edges := by
    funext u v
    rw [Digraph.mem_succ_adjacency, Array.mem_toList_iff]
  have hsuper : (fun u v => v ∈ a.withSuperRoot.succ u) =
      fun u v => ⟨u, v⟩ ∈ g.edges ∨ u = g.size ∧ v ∈ a.entries := by
    funext u v
    rw [Adjacency.mem_succ_withSuperRoot, Digraph.mem_succ_adjacency, Array.mem_toList_iff]
    rfl
  have hfinds := a.finds_visit start
  have hfinds' := a.withSuperRoot.finds_visit start
  rw [hedges] at hfinds
  rw [hsuper] at hfinds'
  exact ⟨⟨Checked.visit?_eq_some hshows start, Checked.reached?_eq_some hshows start, hfinds⟩,
    Checked.visit?_eq_some hshows.withSuperRoot start,
    Checked.reached?_eq_some hshows.withSuperRoot start, hfinds'⟩

end FlowBubbles
