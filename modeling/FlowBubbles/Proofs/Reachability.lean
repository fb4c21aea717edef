import FlowBubbles.Digraph.Adjacency
import Mathlib.Data.Finset.Card
import Mathlib.Data.List.Basic
import Mathlib.Logic.Relation

/-!
# Reachability

What the searches are measured against: a node reaches another one along the edges, two nodes are
mutual if each reaches the other, and a graph is acyclic if mutual nodes are equal, so that loops
are its only cycles.
-/

namespace FlowBubbles

/-- Positions grow along a list without repetition. -/
theorem pairwise_idxOf_lt {l : List Nat} (h : l.Nodup) :
    l.Pairwise fun x y => l.idxOf x < l.idxOf y := by
  rw [List.pairwise_iff_getElem]
  intro i j hi hj hij
  rwa [h.idxOf_getElem, h.idxOf_getElem]

namespace Adjacency

variable {a : Adjacency} {u v w : Nat}

/-- Whether a path, possibly without edges, runs from one node to another. -/
def Reaches (a : Adjacency) : Nat → Nat → Prop := Relation.ReflTransGen fun u v => v ∈ a.succ u

/-- Whether each of two nodes reaches the other. -/
def Mutual (a : Adjacency) (u v : Nat) : Prop := a.Reaches u v ∧ a.Reaches v u

/-- Whether no cycle passes through two or more nodes. -/
def Acyclic (a : Adjacency) : Prop := ∀ u v, a.Mutual u v → u = v

/-- An order of all nodes in which every edge but a loop runs forward. -/
structure IsTopological (a : Adjacency) (order : List Nat) : Prop where
  perm : order.Perm a.nodes
  forward : ∀ u v, v ∈ a.succ u → u ≠ v → order.idxOf u < order.idxOf v

@[simp] theorem mem_nodes : u ∈ a.nodes ↔ u < a.size := List.mem_range

theorem mem_entries_iff : v ∈ a.entries ↔ v < a.size ∧ ∀ u, v ∈ a.succ u → u = v := by
  rw [entries, List.mem_filter, mem_nodes, List.all_eq_true]
  simp only [beq_iff_eq, a.mem_pred_iff]

theorem pairwise_entries (a : Adjacency) : a.entries.Pairwise (· < ·) :=
  List.pairwise_lt_range.filter _

/-! ## Following edges -/

@[refl] theorem Reaches.refl (u : Nat) : a.Reaches u u := Relation.ReflTransGen.refl

theorem Reaches.trans (huv : a.Reaches u v) (hvw : a.Reaches v w) : a.Reaches u w :=
  Relation.ReflTransGen.trans huv hvw

theorem Reaches.single (h : v ∈ a.succ u) : a.Reaches u v := Relation.ReflTransGen.single h

theorem Reaches.tail (huv : a.Reaches u v) (h : w ∈ a.succ v) : a.Reaches u w :=
  Relation.ReflTransGen.tail huv h

/-- A set of nodes that no edge leaves holds whatever its nodes reach. -/
theorem Reaches.mem_of_closed {S : Nat → Prop} (hS : ∀ x y, S x → y ∈ a.succ x → S y)
    (h : a.Reaches u v) (hu : S u) : S v := by
  induction h with
  | refl => exact hu
  | tail _ hedge ih => exact hS _ _ ih hedge

/-- A node of the graph reaches nodes of the graph only. -/
theorem Reaches.lt_size (h : a.Reaches u v) (hu : u < a.size) : v < a.size :=
  h.mem_of_closed (S := fun v => v < a.size) (fun _ _ _ hedge => (a.lt_of_mem_succ hedge).2) hu

/-- A path to another node has a first edge that is no loop. -/
theorem Reaches.exists_succ_ne (h : a.Reaches u v) (hne : u ≠ v) :
    ∃ w ∈ a.succ u, u ≠ w ∧ a.Reaches w v := by
  induction h using Relation.ReflTransGen.head_induction_on with
  | refl => exact absurd rfl hne
  | @head u w hedge hwv ih =>
    by_cases huw : u = w
    · -- a loop is passed over
      subst huw
      exact ih hne
    · exact ⟨w, hedge, huw, hwv⟩

theorem Mutual.refl (u : Nat) : a.Mutual u u := ⟨.refl u, .refl u⟩

theorem Mutual.symm (h : a.Mutual u v) : a.Mutual v u := ⟨h.2, h.1⟩

theorem Mutual.trans (huv : a.Mutual u v) (hvw : a.Mutual v w) : a.Mutual u w :=
  ⟨huv.1.trans hvw.1, hvw.2.trans huv.2⟩

/-! ## Acyclic graphs -/

open Classical in
/-- The nodes that reach a node. -/
noncomputable def above (a : Adjacency) (v : Nat) : Finset Nat :=
  (Finset.range a.size).filter fun u => a.Reaches u v

theorem Acyclic.above_ssubset (h : a.Acyclic) (hedge : v ∈ a.succ u) (hne : u ≠ v) :
    a.above u ⊂ a.above v := by
  have hlt := a.lt_of_mem_succ hedge
  refine (Finset.ssubset_iff_of_subset fun x hx => ?_).2 ⟨v, ?_, fun hv => ?_⟩
  · simp only [above, Finset.mem_filter] at hx ⊢
    exact ⟨hx.1, hx.2.tail hedge⟩
  · simp only [above, Finset.mem_filter, Finset.mem_range]
    exact ⟨hlt.2, .refl v⟩
  · simp only [above, Finset.mem_filter] at hv
    exact hne (h u v ⟨.single hedge, hv.2⟩)

/-- In an acyclic graph a set of nodes has one that no other node of the set precedes. -/
theorem Acyclic.exists_first (h : a.Acyclic) {S : Nat → Prop} (hu : S u) :
    ∃ v, S v ∧ ∀ x, S x → v ∈ a.succ x → x = v := by
  induction hcard : (a.above u).card using Nat.strongRecOn generalizing u with
  | _ n ih =>
    by_cases hfirst : ∀ x, S x → u ∈ a.succ x → x = u
    · exact ⟨u, hu, hfirst⟩
    · push Not at hfirst
      obtain ⟨x, hx, hedge, hne⟩ := hfirst
      -- `x` precedes `u`, and fewer nodes reach it
      have hlt := Finset.card_lt_card (h.above_ssubset hedge hne)
      exact ih _ (hcard ▸ hlt) hx rfl

/-! ## Topological orders -/

namespace IsTopological

variable {order : List Nat}

theorem mem_iff (h : a.IsTopological order) : u ∈ order ↔ u < a.size := by
  rw [h.perm.mem_iff, mem_nodes]

theorem nodup (h : a.IsTopological order) : order.Nodup :=
  h.perm.nodup_iff.2 List.nodup_range

theorem length_eq (h : a.IsTopological order) : order.length = a.size :=
  h.perm.length_eq.trans List.length_range

/-- Whatever a node reaches does not stand before it. -/
theorem idxOf_le_of_reaches (h : a.IsTopological order) (huv : a.Reaches u v) :
    order.idxOf u ≤ order.idxOf v := by
  induction huv with
  | refl => exact Nat.le_refl _
  | @tail x y _ hedge ih =>
    by_cases hxy : x = y
    · rwa [← hxy]
    · exact Nat.le_trans ih (Nat.le_of_lt (h.forward x y hedge hxy))

/-- A topological order leaves no room for a cycle. -/
theorem acyclic (h : a.IsTopological order) : a.Acyclic := by
  rintro u v ⟨huv, hvu⟩
  obtain heq | ⟨x, hux, -⟩ := Relation.ReflTransGen.cases_head huv
  · exact heq
  · have hu : u ∈ order := h.mem_iff.2 (a.lt_of_mem_succ hux).1
    -- neither node stands before the other
    have hidx := Nat.le_antisymm (h.idxOf_le_of_reaches huv) (h.idxOf_le_of_reaches hvu)
    exact (List.idxOf_inj hu).1 hidx

end IsTopological

end Adjacency

theorem Digraph.mem_succ_adjacency {κ : Type} {g : Digraph κ} {u v : Nat} :
    v ∈ g.adjacency.succ u ↔ ⟨u, v⟩ ∈ g.edges.toList := by
  rw [succ_adjacency, successors, List.mem_map]
  constructor
  · rintro ⟨⟨s, t⟩, hmem, rfl⟩
    simp only [List.mem_filter, beq_iff_eq] at hmem
    exact hmem.2 ▸ hmem.1
  · intro h
    exact ⟨⟨u, v⟩, by simpa using h, rfl⟩

end FlowBubbles
