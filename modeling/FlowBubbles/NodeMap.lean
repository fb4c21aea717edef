import FlowBubbles.Node

/-!
# Total maps on nodes

A `NodeMap` has a value at every node: the stored one, or a fallback where nothing is stored. Its
one law is `get_set`, which holds without any condition on the node, so that a proof about an
algorithm never speaks of array bounds.
-/

namespace FlowBubbles

/-- A map that is defined on every node. -/
structure NodeMap (α : Type) where
  fallback : α
  cells : Array α

namespace NodeMap

variable {α : Type}

/-- The map with the same value everywhere. -/
def const (a : α) : NodeMap α := ⟨a, #[]⟩

/-- The value at `v`. -/
def get (m : NodeMap α) (v : Nat) : α := m.cells.getD v m.fallback

/-- The map that has `a` at `v` and is otherwise unchanged. -/
def set (m : NodeMap α) (v : Nat) (a : α) : NodeMap α :=
  if h : v < m.cells.size then
    ⟨m.fallback, m.cells.set v a h⟩
  else
    ⟨m.fallback, (m.cells ++ Array.replicate (v - m.cells.size) m.fallback).push a⟩

@[simp] theorem get_const (a : α) (v : Nat) : (const a).get v = a := by
  simp [const, get]

@[simp] theorem get_set (m : NodeMap α) (v w : Nat) (a : α) :
    (m.set v a).get w = if w = v then a else m.get w := by
  unfold set get
  split
  · rename_i h
    by_cases hw : w = v
    · subst hw; simp [h]
    · simp [Array.getD_eq_getD_getElem?, hw, Ne.symm hw]
  · rename_i h
    simp only [Array.getD_eq_getD_getElem?, Array.getElem?_push, Array.size_append,
      Array.size_replicate]
    by_cases hw : w = v
    · subst hw; simp [show m.cells.size + (w - m.cells.size) = w by omega]
    · have hsize : m.cells.size + (v - m.cells.size) = v := by omega
      simp only [hsize, hw, if_false, Array.getElem?_append, Array.getElem?_replicate]
      split
      · rfl
      · rename_i hlt
        split <;> simp [Array.getElem?_eq_none (Nat.le_of_not_lt hlt)]

theorem get_foldl_set (f : Nat → α) (vs : List Nat) (m : NodeMap α) (w : Nat) :
    (vs.foldl (fun m v => m.set v (f v)) m).get w = if w ∈ vs then f w else m.get w := by
  induction vs generalizing m with
  | nil => simp
  | cons v vs ih =>
    rw [List.foldl_cons, ih, get_set]
    by_cases hw : w = v
    · subst hw; simp
    · simp [hw]

/-- The values at the first `n` nodes. -/
def row (m : NodeMap α) (n : Nat) : List α := (List.range n).map m.get

/-- The map from each listed value to its position, and to `missing` elsewhere; of several
positions the last counts. -/
def positions (order : List Nat) (missing : Nat) : NodeMap Nat :=
  order.zipIdx.foldl (fun m (v, i) => m.set v i) (const missing)

theorem get_foldl_zipIdx {order : List Nat} (h : order.Nodup) (k : Nat) (m : NodeMap Nat)
    (v : Nat) :
    ((order.zipIdx k).foldl (fun m (v, i) => m.set v i) m).get v =
      if v ∈ order then k + order.idxOf v else m.get v := by
  induction order generalizing k m with
  | nil => simp
  | cons w rest ih =>
    rw [List.nodup_cons] at h
    rw [List.zipIdx_cons, List.foldl_cons, ih h.2, get_set]
    by_cases hv : v = w
    · subst hv; simp [h.1]
    · have hidx : (w :: rest).idxOf v = rest.idxOf v + 1 := by
        rw [List.idxOf_cons, beq_false_of_ne (Ne.symm hv)]
        rfl
      simp only [List.mem_cons, hv, false_or, if_false, hidx]
      split <;> omega

theorem get_positions {order : List Nat} (h : order.Nodup) (missing v : Nat) :
    (positions order missing).get v = if v ∈ order then order.idxOf v else missing := by
  rw [positions, get_foldl_zipIdx h, get_const, Nat.zero_add]

end NodeMap

end FlowBubbles
