import FlowBubbles.Proofs.DepthFirst.Report

/-!
# Edges along the order of discovery

The search starts at a node or discovers it along an edge, which then advances: it leads from a
node to one that is discovered later. Back edges do not advance. The first node reaches along edges
that advance whatever it reaches at all (`advances_of_reaches`), and no search starts at the source
of a back edge (`exists_advances_source`).
-/

namespace FlowBubbles

/-- Whether an edge leads from `u` to a node `v` that is discovered later. -/
def Adjacency.Advances (a : Adjacency) (u v : Nat) : Prop :=
  v ∈ a.succ u ∧ a.strongComponents.discovery.get u < a.strongComponents.discovery.get v

namespace DepthFirst

variable {a : Adjacency} {p : Option Nat} {w x y : Nat} {ws : List Nat} {m m' : Nat → Mark}
  {es : List Event}

/-! ## Edges along which nodes are discovered -/

/-- A discovered node is one of those that are dealt with, or an edge leads to it from a node that
is discovered before it. -/
theorem Scan.exists_pred (h : Scan a p ws m es m') (hx : x ∈ discovered es) :
    x ∈ ws ∨ ∃ y, x ∈ a.succ y ∧ [y, x].Sublist (discovered es) := by
  induction h with
  | nil => simp at hx
  | @enter p w ws m m₁ m₂ es₁ es₂ hw hbelow hrest ihbelow ihrest =>
    rw [discovered_enter, List.mem_cons, List.mem_append] at hx
    rw [discovered_enter]
    rcases hx with rfl | hx | hx
    · exact .inl List.mem_cons_self
    · rcases ihbelow hx with hedge | ⟨y, hedge, hsub⟩
      · have hsub := List.singleton_sublist.2 (List.mem_append_left (discovered es₂) hx)
        exact .inr ⟨w, hedge, hsub.cons_cons w⟩
      · exact .inr ⟨y, hedge, (hsub.trans (List.sublist_append_left ..)).cons w⟩
    · rcases ihrest hx with hmem | ⟨y, hedge, hsub⟩
      · exact .inl (List.mem_cons_of_mem _ hmem)
      · exact .inr ⟨y, hedge, (hsub.trans (List.sublist_append_right ..)).cons w⟩
  | skip _ _ ih =>
    rw [discovered_append, discovered_revisits, List.nil_append] at hx ⊢
    exact (ih hx).imp_left (List.mem_cons_of_mem _)

/-- Below a node, each node is discovered along an edge from there or from a discovered node. -/
theorem Scan.exists_pred_below (h : Scan a (some w) (a.succ w) m es m') (hx : x ∈ discovered es) :
    ∃ y, x ∈ a.succ y ∧ [y, x].Sublist (w :: discovered es) := by
  rcases h.exists_pred hx with hedge | ⟨y, hedge, hsub⟩
  · exact ⟨w, hedge, (List.singleton_sublist.2 hx).cons_cons w⟩
  · exact ⟨y, hedge, hsub.cons w⟩

/-- The source of a back edge is no start node: it is discovered along an edge. -/
theorem Scan.exists_pred_source (h : Scan a p ws m es m') (hp : p = none)
    (hpath : ∀ y, m y ≠ .active) {e : Edge} (he : e ∈ backEdges es) :
    ∃ y, e.source ∈ a.succ y ∧ [y, e.source].Sublist (discovered es) := by
  induction h with
  | nil => simp at he
  | @enter p w ws m m₁ m₂ es₁ es₂ hw hbelow hrest _ ihrest =>
    rw [backEdges_enter, List.mem_append] at he
    rw [discovered_enter]
    rcases he with he | he
    · obtain ⟨hne, ⟨hsource, hactive, -⟩ | ⟨hdisc, -, -⟩⟩ := hbelow.of_mem_backEdges he
      · -- an edge out of the start node itself finds no other node on the path
        obtain rfl : w = e.source := Option.some.inj hsource
        rw [Function.update_of_ne hne.symm] at hactive
        exact absurd hactive (hpath _)
      · obtain ⟨y, hedge, hsub⟩ := hbelow.exists_pred_below hdisc
        exact ⟨y, hedge, hsub.trans ((List.sublist_append_left ..).cons_cons w)⟩
    · have hpath' : ∀ y, Function.update m₁ w .done y ≠ .active := by
        intro y hy
        rw [update_done_eq_active_iff, hbelow.active_iff, update_active_eq_active_iff] at hy
        exact hpath y (hy.2.resolve_left hy.1)
      obtain ⟨y, hedge, hsub⟩ := ihrest hp hpath' he
      exact ⟨y, hedge, (hsub.trans (List.sublist_append_right ..)).cons w⟩
  | skip _ _ ih =>
    rw [backEdges_append, List.mem_append, mem_backEdges_revisits] at he
    rw [discovered_append, discovered_revisits, List.nil_append]
    rcases he with ⟨hsome, -⟩ | he
    · simp [hp] at hsome
    · exact ih hp hpath he

/-! ## What is found below a start node -/

/-- If nothing is met before it, the search below a node discovers whatever that node reaches. -/
theorem Scan.mem_of_reaches
    (h : Scan a (some w) (a.succ w) (Function.update (fun _ => .fresh) w .active) es m')
    (hx : a.Reaches w x) : x ∈ w :: discovered es := by
  have hmet : ∀ y, m' y ≠ .fresh → y ∈ w :: discovered es := by
    intro y hy
    by_cases hyw : y = w
    · exact hyw ▸ List.mem_cons_self
    · exact List.mem_cons_of_mem _ (h.mem_discovered.2 ⟨Function.update_of_ne hyw .., hy⟩)
  refine hx.mem_of_closed (S := fun y => y ∈ w :: discovered es) (fun y z hy hedge => ?_)
    List.mem_cons_self
  rcases List.mem_cons.1 hy with rfl | hy
  · exact hmet z (h.met_of_mem hedge)
  · exact hmet z (h.met_of_mem_succ hy hedge)

/-- Edges that advance lead from a node to whatever is discovered below it. -/
theorem Scan.advances_of_mem (h : Scan a (some w) (a.succ w) m es m')
    (hreport : (w :: discovered es).Sublist (discovered a.depthFirst))
    (hx : x ∈ w :: discovered es) : Relation.ReflTransGen a.Advances w x := by
  induction hdisc : a.strongComponents.discovery.get x using Nat.strongRecOn generalizing x with
  | _ n ih =>
    rcases List.mem_cons.1 hx with rfl | hx
    · exact .refl
    · obtain ⟨y, hedge, hsub⟩ := h.exists_pred_below hx
      have hlt := discovery_lt_of_sublist (hsub.trans hreport)
      have hy : y ∈ w :: discovered es := hsub.subset List.mem_cons_self
      exact (ih _ (hdisc ▸ hlt) hy rfl).tail ⟨hedge, hlt⟩

/-! ## The whole search -/

/-- The first node reaches whatever it reaches along edges that advance. -/
theorem advances_of_reaches (h : a.Reaches 0 x) : Relation.ReflTransGen a.Advances 0 x := by
  rcases Relation.ReflTransGen.cases_head h with rfl | ⟨y, hedge, -⟩
  · exact .refl
  · obtain ⟨n, hsize⟩ := Nat.exists_eq_add_one.2 (Nat.zero_lt_of_lt (a.lt_of_mem_succ hedge).1)
    obtain ⟨m, hscan⟩ := a.scan_depthFirst
    rw [Adjacency.nodes, hsize, List.range_succ_eq_map] at hscan
    generalize hes : a.depthFirst = es at hscan
    cases hscan with
    | enter _ hbelow hrest =>
      refine hbelow.advances_of_mem ?_ (hbelow.mem_of_reaches h)
      rw [hes, discovered_enter]
      exact (List.sublist_append_left ..).cons_cons 0
    | skip hfresh _ => exact absurd rfl hfresh

/-- An edge that advances is no back edge. -/
theorem not_mem_backEdges_of_advances (h : a.Advances x y) :
    ⟨x, y⟩ ∉ a.strongComponents.backEdges := by
  intro hback
  have hlt := discovery_lt_of_mem_backEdges hback
  exact Nat.lt_asymm h.2 hlt

/-- A flipped back edge runs along the order of discovery, and so is no back edge. -/
theorem flip_not_mem_backEdges {e : Edge} (he : e ∈ a.strongComponents.backEdges) :
    e.flip ∉ a.strongComponents.backEdges := by
  intro hflip
  have hlt := discovery_lt_of_mem_backEdges he
  exact Nat.lt_asymm hlt (discovery_lt_of_mem_backEdges hflip)

/-- An edge that advances leads to the source of a back edge. -/
theorem exists_advances_source {e : Edge} (he : e ∈ a.strongComponents.backEdges) :
    ∃ y, a.Advances y e.source := by
  obtain ⟨m, hscan⟩ := a.scan_depthFirst
  obtain ⟨y, hedge, hsub⟩ := hscan.exists_pred_source rfl (by simp) he
  exact ⟨y, hedge, discovery_lt_of_sublist hsub⟩

end DepthFirst

end FlowBubbles
