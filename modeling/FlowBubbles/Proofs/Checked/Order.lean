import FlowBubbles.Proofs.Checked.Storage
import FlowBubbles.Proofs.TopologicalOrder

/-!
# The checked topological order

A node that an edge leads to waits for this edge, so the number of edges that it waits for can be
lowered (`release?_eq_some`). The nodes of the line are nodes of the graph, and the line comes to an
end (`topologicalOrder?_eq_some`).
-/

namespace FlowBubbles.Checked

/-- The state of the line with the numbers of edges in a table. -/
structure Line where
  order : Array Nat
  dealt : Nat
  waiting : Table Nat

namespace Line

/-- Deals with an edge from `v`. -/
def release? (v : Nat) (s : Line) (w : Nat) : Option Line :=
  if w = v then some s
  else do
    let left ← sub? (← s.waiting.get? w) 1
    let waiting ← s.waiting.set? w left
    return ⟨if left = 0 then s.order.push w else s.order, s.dealt, waiting⟩

/-- Whether all nodes of the line are dealt with. -/
def halted (s : Line) : Bool := s.order.size ≤ s.dealt

/-- Deals with the next node of the line. -/
def advance? (w : View) (s : Line) : Option Line :=
  match s.order[s.dealt]? with
  | none => some s
  | some v => do (← w.succ v).foldlM (release? v) ⟨s.order, s.dealt + 1, s.waiting⟩

/-- For each node, the number of edges from other nodes into it. -/
def waitingAtStart? (w : View) : Option (Table Nat) :=
  (List.range w.size).foldlM (fun t v => do t.set? v ((← w.pred v).countP (· != v)))
    (.replicate w.size 0)

/-- The line before any node is dealt with. -/
def start? (w : View) : Option Line := do
  let waiting ← waitingAtStart? w
  let order ← filter? (fun v => (waiting.get? v).map (· == 0)) (List.range w.size)
  return ⟨order.toArray, 0, waiting⟩

/-- The state of the line with a table of `n` cells. -/
def tabled (n : Nat) (s : FlowBubbles.Line) : Line := ⟨s.order, s.dealt, ⟨n, s.waiting⟩⟩

end Line

/-- The topological order of the nodes, if there is one. -/
noncomputable def topologicalOrder? (w : View) : Option (Option (List Nat)) := do
  let line ← loop Line.halted (Line.advance? w) (← Line.start? w)
  return if line.order.size = w.size then some line.order.toList else none

variable {a : Adjacency} {w : View} {s : FlowBubbles.Line} {v x : Nat} {ws : List Nat}

namespace Line

/-- The target of an edge that is still to be looked at waits for it. -/
theorem release?_eq_some (h : s.Sound a (FlowBubbles.Line.edgesTo v (x :: ws))) (hx : x < a.size) :
    (tabled a.size s).release? v x = some (tabled a.size (s.release v x)) := by
  rw [release?, FlowBubbles.Line.release]
  split
  · rfl
  · rename_i hxv
    have hpos : 1 ≤ s.waiting.get x := by
      have howed : FlowBubbles.Line.edgesTo v (x :: ws) x = ws.count x + 1 := by
        simp [FlowBubbles.Line.edgesTo, hxv]
      rw [h.waiting_eq, howed]
      omega
    have hread : (tabled a.size s).waiting.get? x = some (s.waiting.get x) := Table.get?_of_lt hx
    have hwrite : ∀ k, (tabled a.size s).waiting.set? x k = some ⟨a.size, s.waiting.set x k⟩ :=
      Table.set?_of_lt hx
    simp only [hread, sub?_of_le hpos, hwrite, Option.bind_eq_bind, Option.bind_some]
    rfl

theorem foldlM_release? (h : s.Sound a (FlowBubbles.Line.edgesTo v ws))
    (hws : ∀ x ∈ ws, x < a.size) :
    ws.foldlM (release? v) (tabled a.size s) =
      some (tabled a.size (ws.foldl (FlowBubbles.Line.release v) s)) :=
  (foldlM_eq_some (e := tabled a.size)
    (P := fun rest s => s.Sound a (FlowBubbles.Line.edgesTo v rest) ∧ ∀ x ∈ rest, x < a.size)
    (fun x rest s hs => by
      obtain ⟨hx, hrest⟩ := List.forall_mem_cons.1 hs.2
      exact ⟨release?_eq_some hs.1 hx, hs.1.release hx, hrest⟩) ws s ⟨h, hws⟩).1

/-- Dealing with the next node stays in range, and takes no more than there is. -/
theorem advance?_eq_some (hw : w.Shows a) (h : s.Sound a fun _ => 0) (hs : s.halted = false) :
    (tabled a.size s).advance? w = some (tabled a.size (s.advance a)) := by
  have hs : s.dealt < s.order.size := by simpa [FlowBubbles.Line.halted] using hs
  have hnext : s.order[s.dealt] < a.size := h.lt_size _ (Array.getElem_mem_toList hs)
  have hget : (tabled a.size s).order[(tabled a.size s).dealt]? = some s.order[s.dealt] :=
    Array.getElem?_eq_getElem hs
  simp only [advance?, hget, hw.succ _ hnext, FlowBubbles.Line.advance_eq hs, Option.bind_eq_bind,
    Option.bind_some]
  exact foldlM_release? (h.deal hs) fun x hx => (a.lt_of_mem_succ hx).2

theorem waitingAtStart?_eq_some (hw : w.Shows a) :
    waitingAtStart? w = some ⟨a.size, FlowBubbles.Line.waitingAtStart a⟩ := by
  rw [waitingAtStart?, hw.size]
  exact (foldlM_eq_some (e := fun m : NodeMap Nat => (⟨a.size, m⟩ : Table Nat))
    (P := fun rest _ => ∀ v ∈ rest, v < a.size)
    (fun v rest m hrest => by
      obtain ⟨hv, hrest⟩ := List.forall_mem_cons.1 hrest
      simp only [hw.pred v hv, Option.bind_eq_bind, Option.bind_some]
      exact ⟨Table.set?_of_lt hv _, hrest⟩) a.nodes (.const 0)
    fun v hv => Adjacency.mem_nodes.1 hv).1

theorem start?_eq_some (hw : w.Shows a) :
    start? w = some (tabled a.size (FlowBubbles.Line.start a)) := by
  have hfilter : filter? (fun v =>
        ((⟨a.size, FlowBubbles.Line.waitingAtStart a⟩ : Table Nat).get? v).map (· == 0))
          (List.range a.size) =
      some (a.nodes.filter ((FlowBubbles.Line.waitingAtStart a).get · == 0)) := by
    refine filter?_eq_some fun v hv => ?_
    rw [Table.get?_of_lt (List.mem_range.1 hv)]
    rfl
  simp only [start?, waitingAtStart?_eq_some hw, hw.size, hfilter, Option.bind_eq_bind,
    Option.bind_some]
  rfl

end Line

/-- The line comes to its end, and is the order. -/
theorem topologicalOrder?_eq_some (hw : w.Shows a) :
    topologicalOrder? w = some a.topologicalOrder := by
  have hhalted : ∀ s, (Line.tabled a.size s).halted = s.halted := fun _ => rfl
  have hloop := loop_eq_some hhalted (fun _ hs h => Line.advance?_eq_some hw h hs)
    (fun _ hs h => h.advance hs) a.size (.start a) (FlowBubbles.Line.Sound.start a)
    (FlowBubbles.Line.halted_final a)
  simp only [topologicalOrder?, Line.start?_eq_some hw, hloop, hw.size, Option.bind_eq_bind,
    Option.bind_some]
  rfl

end FlowBubbles.Checked
