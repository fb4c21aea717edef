import FlowBubbles.Proofs.Checked.Storage
import FlowBubbles.Proofs.Traversal

/-!
# The checked visit

The nodes on the stack are nodes of the graph, and so are the nodes that their edges lead to, so the
visit stays in range and comes to its end (`Visit.loop_next?`).
-/

namespace FlowBubbles.Checked

/-- The state of a visit with the marks in a table. -/
structure Visit where
  marked : Table Bool
  pending : List Nat
  visited : Array Nat

namespace Visit

/-- Puts a node on the stack unless it is marked. -/
def push? (s : Visit) (v : Nat) : Option Visit := do
  if ← s.marked.get? v then return s
  else return ⟨← s.marked.set? v true, v :: s.pending, s.visited⟩

/-- Visits the next node and puts its successors on the stack. -/
def next? (w : View) (s : Visit) : Option Visit :=
  match s.pending with
  | [] => some s
  | v :: rest => do (← w.succ v).reverse.foldlM push? ⟨s.marked, rest, s.visited.push v⟩

/-- The state before the first node is visited. A start outside the graph is not put on the
stack. -/
def atStart (w : View) (v : Nat) : Visit :=
  match (Table.replicate w.size false).set? v true with
  | some marked => ⟨marked, [v], #[]⟩
  | none => ⟨.replicate w.size false, [], #[]⟩

/-- Whether there is nothing left to visit. -/
def halted (s : Visit) : Bool := s.pending.isEmpty

/-- The state of a visit with its marks in a table of `n` cells. -/
def tabled (n : Nat) (s : FlowBubbles.Visit) : Visit := ⟨⟨n, s.marked⟩, s.pending, s.visited⟩

end Visit

/-- For each node, whether `v` reaches it. -/
noncomputable def reached? (w : View) (v : Nat) : Option (Table Bool) :=
  (loop Visit.halted (Visit.next? w) (Visit.atStart w v)).map Visit.marked

/-- The nodes that `v` reaches, in the order of the visit. -/
noncomputable def visit? (w : View) (v : Nat) : Option (List Nat) :=
  (loop Visit.halted (Visit.next? w) (Visit.atStart w v)).map fun s => s.visited.toList

variable {a : Adjacency} {w : View} {s : FlowBubbles.Visit} {v : Nat} {ws : List Nat}

namespace Visit

theorem push?_eq_some (hv : v < a.size) :
    (tabled a.size s).push? v = some (tabled a.size (s.push v)) := by
  have hread : (tabled a.size s).marked.get? v = some (s.marked.get v) := Table.get?_of_lt hv
  have hwrite : ∀ b, (tabled a.size s).marked.set? v b = some ⟨a.size, s.marked.set v b⟩ :=
    Table.set?_of_lt hv
  simp only [push?, hread, hwrite, FlowBubbles.Visit.push, Option.bind_eq_bind, Option.bind_some]
  split <;> rfl

theorem foldlM_push? (hws : ∀ v ∈ ws, v < a.size) :
    ws.foldlM push? (tabled a.size s) =
      some (tabled a.size (ws.foldl FlowBubbles.Visit.push s)) :=
  (foldlM_eq_some (e := tabled a.size) (P := fun rest _ => ∀ v ∈ rest, v < a.size)
    (fun _ _ _ hrest => ⟨push?_eq_some (List.forall_mem_cons.1 hrest).1,
      (List.forall_mem_cons.1 hrest).2⟩) ws s hws).1

theorem next?_eq_some (hw : w.Shows a) (h : ∀ v ∈ s.pending, v < a.size) :
    (tabled a.size s).next? w = some (tabled a.size (a.visitNext s)) := by
  rw [next?, Adjacency.visitNext]
  cases hpending : s.pending with
  | nil =>
    have hnil : (tabled a.size s).pending = [] := hpending
    simp only [hnil]
  | cons v rest =>
    have hcons : (tabled a.size s).pending = v :: rest := hpending
    have hv : v < a.size := h v (by simp [hpending])
    simp only [hcons, hw.succ v hv, Option.bind_eq_bind, Option.bind_some]
    exact foldlM_push? (s := ⟨s.marked, rest, s.visited.push v⟩) fun x hx => (a.lt_of_mem_succ (List.mem_reverse.1 hx)).2

theorem atStart_eq (hw : w.Shows a) (v : Nat) :
    atStart w v = tabled a.size (a.visitStart v) := by
  rw [atStart, Adjacency.visitStart, hw.size]
  by_cases hv : v < a.size
  · rw [Table.replicate, Table.set?_of_lt hv, if_pos hv]
    rfl
  · have hnone : (Table.replicate a.size false).set? v true = none := if_neg hv
    rw [hnone, if_neg hv]
    rfl

/-- The visit comes to its end, also from a start outside the graph. -/
theorem loop_next? (hw : w.Shows a) (v : Nat) :
    loop halted (next? w) (atStart w v) = some (tabled a.size (a.visitEnd v)) := by
  have hhalted : ∀ s, (tabled a.size s).halted = s.pending.isEmpty := fun _ => rfl
  rw [atStart_eq hw]
  exact loop_eq_some hhalted
    (fun s _ h => next?_eq_some hw fun x hx => h.lt_size x (List.mem_append_right _ hx))
    (fun _ _ h => FlowBubbles.Visit.Sound.next h) a.size (a.visitStart v) (a.sound_visitStart v)
    (List.isEmpty_iff.2 (a.halted_visitEnd v))

end Visit

theorem reached?_eq_some (hw : w.Shows a) (v : Nat) :
    reached? w v = some ⟨a.size, a.reached v⟩ := by
  rw [reached?, Visit.loop_next? hw]
  rfl

theorem visit?_eq_some (hw : w.Shows a) (v : Nat) : visit? w v = some (a.visit v) := by
  rw [visit?, Visit.loop_next? hw]
  rfl

end FlowBubbles.Checked
