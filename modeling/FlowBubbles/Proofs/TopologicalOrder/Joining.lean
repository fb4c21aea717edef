import FlowBubbles.Proofs.TopologicalOrder

/-!
# When a node joins the line

The moments of a run are ordered by the position of the node that is dealt with, and then by the
position of the edge among the edges out of it. A node that does not stand in the line from the
start joins it at the moment at which the last edge into it is dealt with: the last one out of the
last of the other nodes that precede it. Later nodes of the line join at later moments
(`Line.filed_final`).
-/

namespace FlowBubbles

namespace Line

variable {a : Adjacency} {s : Line} {order : List Nat} {v x k : Nat} {ws rest : List Nat}
  {m now now' : Nat × Nat}

/-! ## Moments -/

/-- Whether one moment comes before another one. -/
def Earlier (m n : Nat × Nat) : Prop := m.1 < n.1 ∨ m.1 = n.1 ∧ m.2 < n.2

/-- `x` joins the line at the moment `m`: no later edge leads from the same node to `x`, and the
other nodes that precede `x` do not stand behind this node. -/
structure JoinsAt (a : Adjacency) (order : List Nat) (x : Nat) (m : Nat × Nat) : Prop where
  last : ∃ p, order[m.1]? = some p ∧ p ≠ x ∧ (a.succ p)[m.2]? = some x ∧
    x ∉ (a.succ p).drop (m.2 + 1)
  preds : ∀ q ∈ a.pred x, q ≠ x → q ∈ order.take (m.1 + 1)

/-- The line starts with the entries, and the other nodes joined it one after the other before the
moment `now`. -/
structure Filed (a : Adjacency) (now : Nat × Nat) (order : List Nat) : Prop where
  entries : a.entries <+: order
  sorted : (order.drop a.entries.length).Pairwise fun x y =>
    ∃ m n, JoinsAt a order x m ∧ JoinsAt a order y n ∧ Earlier m n
  past : ∀ x ∈ order.drop a.entries.length, ∃ m, JoinsAt a order x m ∧ Earlier m now

/-- The moment at which a node joined does not change when others join. -/
theorem JoinsAt.append (h : JoinsAt a order x m) (l : List Nat) : JoinsAt a (order ++ l) x m := by
  obtain ⟨p, hp, hlast⟩ := h.last
  have hlt : m.1 < order.length := (List.getElem?_eq_some_iff.1 hp).1
  refine ⟨⟨p, (List.getElem?_append_left hlt).trans hp, hlast⟩, fun q hq hne => ?_⟩
  rw [List.take_append_of_le_length hlt]
  exact h.preds q hq hne

theorem Filed.later (h : Filed a now order) (hnow : ∀ m, Earlier m now → Earlier m now') :
    Filed a now' order := by
  refine ⟨h.entries, h.sorted, fun x hx => ?_⟩
  obtain ⟨m, hm, hlt⟩ := h.past x hx
  exact ⟨m, hm, hnow m hlt⟩

/-- A node that joins now comes last. -/
theorem Filed.push (h : Filed a now order) (hx : JoinsAt a order x now) :
    Filed a (now.1, now.2 + 1) (order ++ [x]) := by
  have hdrop : (order ++ [x]).drop a.entries.length = order.drop a.entries.length ++ [x] :=
    List.drop_append_of_le_length h.entries.length_le
  have hnow : Earlier now (now.1, now.2 + 1) := .inr ⟨rfl, Nat.lt_succ_self _⟩
  refine ⟨h.entries.trans (List.prefix_append ..), ?_, ?_⟩
  · rw [hdrop, List.pairwise_append]
    refine ⟨h.sorted.imp ?_, List.pairwise_singleton .., fun y hy z hz => ?_⟩
    · rintro y z ⟨m, n, hm, hn, hlt⟩
      exact ⟨m, n, hm.append _, hn.append _, hlt⟩
    · obtain ⟨m, hm, hlt⟩ := h.past y hy
      rw [List.mem_singleton.1 hz]
      exact ⟨m, now, hm.append _, hx.append _, hlt⟩
  · intro y hy
    rw [hdrop, List.mem_append, List.mem_singleton] at hy
    rcases hy with hy | rfl
    · obtain ⟨m, hm, hlt⟩ := h.past y hy
      exact ⟨m, hm.append _, by unfold Earlier at *; omega⟩
    · exact ⟨now, hx.append _, hnow⟩

/-! ## Dealing with a node -/

/-- What holds while `v`, which stands at position `k`, is dealt with, when its edges to `ws` are
done and those to `rest` are left. -/
structure Dealing (a : Adjacency) (v k : Nat) (ws rest : List Nat) (s : Line) : Prop where
  sound : Sound a (edgesTo v rest) s
  succ_eq : a.succ v = ws ++ rest
  dealt_eq : s.dealt = k + 1
  get_eq : s.order.toList[k]? = some v
  filed : Filed a (k, ws.length) s.order.toList

/-- An edge leaves the line as it is, or it is the last one that its target waits for. -/
theorem order_release (v : Nat) (s : Line) (w : Nat) :
    (Line.release v s w).order.toList = s.order.toList ∨
      w ≠ v ∧ s.waiting.get w - 1 = 0 ∧
        (Line.release v s w).order.toList = s.order.toList ++ [w] := by
  rw [Line.release]
  by_cases hwv : w = v
  · exact .inl (by rw [if_pos hwv])
  · rw [if_neg hwv]
    by_cases hlast : s.waiting.get w - 1 = 0
    · exact .inr ⟨hwv, hlast, by simp [hlast]⟩
    · exact .inl (by simp [hlast])

/-- A node that waits for one edge only joins at the moment at which this edge is dealt with. -/
theorem Dealing.joinsAt (h : Dealing a v k ws (x :: rest) s) (hne : x ≠ v)
    (hlast : s.waiting.get x - 1 = 0) : JoinsAt a s.order.toList x (k, ws.length) := by
  have hwaiting := h.sound.waiting_eq x
  rw [edgesTo, if_neg hne, List.count_cons_self] at hwaiting
  constructor
  · refine ⟨v, h.get_eq, hne.symm, by simp [h.succ_eq], fun hmem => ?_⟩
    have hrest : (a.succ v).drop (ws.length + 1) = rest := by simp [h.succ_eq]
    have hcount := List.count_pos_iff.2 (hrest ▸ hmem)
    omega
  · intro q hq hqx
    have hzero : (a.pred x).countP
        (fun u => u ≠ x ∧ u ∉ s.order.toList.take s.dealt) = 0 := by omega
    rw [← h.dealt_eq]
    exact mem_of_countP_not_mem hzero hq hqx

/-- Dealing with one edge takes it from those that are left to those that are done. -/
theorem Dealing.release (h : Dealing a v k ws (x :: rest) s) :
    Dealing a v k (ws ++ [x]) rest (Line.release v s x) := by
  have hx : x ∈ a.succ v := by simp [h.succ_eq]
  have hsound := h.sound.release (a.lt_of_mem_succ hx).2
  have hsucc : a.succ v = (ws ++ [x]) ++ rest := by simp [h.succ_eq]
  have hdealt := (dealt_foldl_release v [x] s).trans h.dealt_eq
  rcases order_release v s x with hsame | ⟨hne, hlast, hpush⟩
  · refine ⟨hsound, hsucc, hdealt, hsame ▸ h.get_eq, ?_⟩
    rw [hsame, List.length_append]
    refine h.filed.later fun m hm => ?_
    simp only [Earlier, List.length_singleton] at hm ⊢
    omega
  · have hk : k < s.order.toList.length := (List.getElem?_eq_some_iff.1 h.get_eq).1
    refine ⟨hsound, hsucc, hdealt, ?_, ?_⟩
    · rw [hpush, List.getElem?_append_left hk]
      exact h.get_eq
    · rw [hpush, List.length_append]
      exact h.filed.push (h.joinsAt hne hlast)

theorem Dealing.foldl_release (h : Dealing a v k ws rest s) :
    Dealing a v k (ws ++ rest) [] (rest.foldl (Line.release v) s) := by
  induction rest generalizing ws s with
  | nil => simpa using h
  | cons x rest ih => simpa using ih h.release

/-! ## The whole run -/

theorem Filed.advance (hsound : Sound a (fun _ => 0) s)
    (h : Filed a (s.dealt, 0) s.order.toList) (hs : s.halted = false) :
    Filed a ((Line.advance a s).dealt, 0) (Line.advance a s).order.toList := by
  have hs : s.dealt < s.order.size := by simpa [halted] using hs
  have hdealing : Dealing a s.order[s.dealt] s.dealt [] (a.succ s.order[s.dealt])
      { s with dealt := s.dealt + 1 } :=
    ⟨hsound.deal hs, rfl, rfl, by simp [hs], h⟩
  rw [dealt_advance hs, advance_eq hs]
  refine hdealing.foldl_release.filed.later fun m hm => ?_
  unfold Earlier at hm ⊢
  omega

/-- At the start the entries stand in the line. -/
theorem order_start (a : Adjacency) : (Line.start a).order.toList = a.entries := by
  rw [Line.start, List.toList_toArray, Adjacency.entries]
  refine List.filter_congr fun w _ => ?_
  have hwaiting : (waitingAtStart a).get w = _ := (Sound.start a).waiting_eq w
  rw [hwaiting, Bool.eq_iff_iff, beq_iff_eq, Nat.add_zero, List.countP_eq_zero, List.all_eq_true]
  simp [Line.start]

theorem Filed.start (a : Adjacency) : Filed a (0, 0) (Line.start a).order.toList := by
  rw [order_start]
  refine ⟨List.prefix_refl _, ?_, ?_⟩ <;> simp

/-- All nodes but the entries joined the line one after the other. -/
theorem filed_final (a : Adjacency) :
    Filed a ((final a).dealt, 0) (final a).order.toList := by
  have hrun : Sound a (fun _ => 0) (final a) ∧
      Filed a ((final a).dealt, 0) (final a).order.toList :=
    iterate_invariant (P := fun s => Sound a (fun _ => 0) s ∧ Filed a (s.dealt, 0) s.order.toList)
      (fun s hs h => ⟨h.1.advance hs, h.2.advance h.1 hs⟩) a.size _ ⟨Sound.start a, Filed.start a⟩
  exact hrun.2

end Line

end FlowBubbles
