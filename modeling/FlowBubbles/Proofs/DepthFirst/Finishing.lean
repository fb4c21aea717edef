import FlowBubbles.Proofs.DepthFirst.Report

/-!
# The order of finishing

An edge that is no back edge and no loop leads to a node that is finished first. So along a cycle of
two or more nodes some edge is a back edge, and the back edges of a search tell whether the graph is
acyclic: `acyclic_iff_backEdges_eq_nil`.
-/

namespace FlowBubbles

namespace DepthFirst

/-- The finished node of an event. -/
def Event.finished? : Event → Option Nat
  | finish v _ => some v
  | _ => none

/-- The finished nodes of a report, in order. -/
def finished (es : List Event) : List Nat := es.filterMap Event.finished?

section

variable {p : Option Nat} {w : Nat} {k : Mark} {es es₁ es₂ : List Event}

@[simp] theorem finished_nil : finished [] = [] := rfl

@[simp] theorem finished_enter :
    finished (.discover w :: (es₁ ++ .finish w p :: es₂)) =
      finished es₁ ++ w :: finished es₂ := by
  simp [finished, List.filterMap_cons, Event.finished?]

@[simp] theorem finished_append : finished (es₁ ++ es₂) = finished es₁ ++ finished es₂ :=
  List.filterMap_append ..

@[simp] theorem finished_revisits : finished (revisits p w k) = [] := by
  cases p <;> simp [finished, revisits, Event.finished?]

end

variable {a : Adjacency} {p : Option Nat} {ws : List Nat} {m m' : Nat → Mark} {es : List Event}
  {u v x y : Nat}

/-- A scan finishes what it discovers. -/
theorem Scan.perm_finished (h : Scan a p ws m es m') : (finished es).Perm (discovered es) := by
  induction h with
  | nil => exact .nil
  | enter _ _ _ ihbelow ihrest =>
    rw [finished_enter, discovered_enter]
    exact List.perm_middle.trans ((ihbelow.append ihrest).cons _)
  | skip _ _ ih => simpa using ih

/-- An edge to another node is a back edge, or its target is finished before its source. -/
theorem Scan.finished_first (h : Scan a p ws m es m') (hx : x ∈ discovered es)
    (hy : y ∈ a.succ x) (hne : x ≠ y) :
    ⟨x, y⟩ ∈ backEdges es ∨ m y = .done ∨ [y, x].Sublist (finished es) := by
  induction h with
  | nil => simp at hx
  | @enter p w ws m m₁ m₂ es₁ es₂ hw hbelow hrest ihbelow ihrest =>
    have hmet : y ≠ w → m₁ y ≠ .fresh →
        m y = .active ∨ m y = .done ∨ [y].Sublist (finished es₁) := by
      intro hyw hmark
      cases hm : m y with
      | fresh =>
        have hdisc := hbelow.mem_discovered.2 ⟨by rwa [Function.update_of_ne hyw], hmark⟩
        exact .inr (.inr (List.singleton_sublist.2 (hbelow.perm_finished.mem_iff.2 hdisc)))
      | active => exact .inl rfl
      | done => exact .inr (.inl rfl)
    rw [backEdges_enter, List.mem_append, finished_enter]
    rw [discovered_enter, List.mem_cons, List.mem_append] at hx
    rcases hx with rfl | hx | hx
    · -- all edges out of `x` are followed before it is finished
      rcases hmet hne.symm (hbelow.met_of_mem hy) with hmark | hmark | hfirst
      · refine .inl (.inl (hbelow.mem_backEdges ?_ hne (.inl ⟨rfl, hy⟩)))
        rwa [Function.update_of_ne hne.symm]
      · exact .inr (.inl hmark)
      · exact .inr (.inr (hfirst.append ((List.nil_sublist _).cons_cons x)))
    · rcases ihbelow hx with hback | hmark | hsub
      · exact .inl (.inl hback)
      · have hyw : y ≠ w := fun h => by simp [h] at hmark
        rw [Function.update_of_ne hyw] at hmark
        exact .inr (.inl hmark)
      · exact .inr (.inr (hsub.trans (List.sublist_append_left ..)))
    · have hrestx : [x].Sublist (finished es₂) :=
        List.singleton_sublist.2 (hrest.perm_finished.mem_iff.2 hx)
      rcases ihrest hx with hback | hmark | hsub
      · exact .inl (.inr hback)
      · by_cases hyw : y = w
        · subst hyw
          exact .inr (.inr ((hrestx.cons_cons y).trans (List.sublist_append_right ..)))
        · rw [Function.update_of_ne hyw] at hmark
          rcases hmet hyw (by simp [hmark]) with hactive | hdone | hfirst
          · have := hbelow.active_iff (x := y)
            simp [Function.update_of_ne hyw, hactive, hmark] at this
          · exact .inr (.inl hdone)
          · exact .inr (.inr (hfirst.append (hrestx.cons w)))
      · exact .inr (.inr ((hsub.cons w).trans (List.sublist_append_right ..)))
  | skip _ _ ih =>
    rw [discovered_append, discovered_revisits, List.nil_append] at hx
    rw [backEdges_append, List.mem_append, finished_append, finished_revisits, List.nil_append]
    exact (ih hx).imp_left .inr

/-! ## Cycles -/

/-- A cycle of two or more nodes has a back edge in it. -/
theorem exists_mem_backEdges (h : a.Mutual u v) (hne : u ≠ v) :
    ∃ e ∈ backEdges a.depthFirst, a.Mutual u e.source := by
  obtain ⟨m, hscan⟩ := a.scan_depthFirst
  -- of the nodes of the component, the one that is finished first
  obtain ⟨x, hx, hfirst⟩ := (measure fun x => (finished a.depthFirst).idxOf x).wf.has_min
    {x | a.Mutual u x} ⟨u, .refl u⟩
  obtain ⟨z, hz, hxz⟩ : ∃ z, a.Mutual u z ∧ x ≠ z := by
    by_cases hxu : x = u
    · exact ⟨v, h, hxu ▸ hne⟩
    · exact ⟨u, .refl u, hxu⟩
  -- an edge out of it that stays in the component can only be a back edge
  obtain ⟨y, hedge, hxy, hyz⟩ := (hx.2.trans hz.1).exists_succ_ne hxz
  have hy : a.Mutual u y := ⟨hx.1.tail hedge, hyz.trans hz.2⟩
  refine ⟨⟨x, y⟩, ?_, hx⟩
  have hdisc : x ∈ discovered a.depthFirst :=
    (perm_discovered_depthFirst a).mem_iff.2 (Adjacency.mem_nodes.2 (a.lt_of_mem_succ hedge).1)
  rcases hscan.finished_first hdisc hedge hxy with hback | hdone | hsub
  · exact hback
  · cases hdone
  · have hnodup := hscan.perm_finished.nodup_iff.2 hscan.nodup_discovered
    have hlt := (pairwise_idxOf_lt hnodup).sublist hsub
    simp only [List.pairwise_cons, List.mem_singleton, forall_eq] at hlt
    exact absurd hlt.1 (hfirst y hy)

/-- The search meets a back edge exactly if a cycle passes through two or more nodes. -/
theorem acyclic_iff_backEdges_eq_nil : a.Acyclic ↔ backEdges a.depthFirst = [] := by
  constructor
  · intro hacyclic
    refine List.eq_nil_iff_forall_not_mem.2 fun e he => ?_
    obtain ⟨hne, hedge, -⟩ := of_mem_backEdges_depthFirst he
    exact hne (hacyclic _ _ ⟨.single hedge, reaches_of_mem_backEdges_depthFirst he⟩)
  · intro hnil u v hmutual
    by_contra hne
    obtain ⟨e, he, -⟩ := exists_mem_backEdges hmutual hne
    simp [hnil] at he

end DepthFirst

end FlowBubbles
