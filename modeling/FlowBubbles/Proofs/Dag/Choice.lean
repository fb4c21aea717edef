import FlowBubbles.Proofs.Cycles

/-!
# The edges of a pass

Of two different edges exactly one is chosen before the other, so that a scan that keeps the better
edge at every step ends with the one that is chosen before all others
(`StrongComponents.prefers_of_preferred`). One scan of all back edges does this for all components
at once, with a cell for each of them. As a component of more than one node has back edges inside it
and a single node is no end of one, the cells that are filled are those of the components of more
than one node: `StrongComponents.chosen_deepest`.
-/

namespace FlowBubbles

open DepthFirst

namespace StrongComponents

variable {s : StrongComponents} {a : Adjacency} {c : List Nat} {es : List Edge} {b e f : Edge}
  {i : Nat}

/-- How deep an edge lies in the search: the sum of the discovery indices of its ends. -/
def depth (s : StrongComponents) (e : Edge) : Nat :=
  s.discovery.get e.source + s.discovery.get e.target

/-- The back edges whose ends both lie in `c`. -/
def backEdgesWithin (s : StrongComponents) (c : List Nat) : List Edge :=
  s.backEdges.filter fun e => e.source ∈ c ∧ e.target ∈ c

/-- `e` is the edge of `es` that lies deepest. Of several edges of this depth it is the one whose
ends come first in ascending order, the source before the target. -/
def Deepest (s : StrongComponents) (es : List Edge) (e : Edge) : Prop :=
  e ∈ es ∧ ∀ f ∈ es, f ≠ e →
    s.depth f < s.depth e ∨
      s.depth f = s.depth e ∧
        (e.source < f.source ∨ e.source = f.source ∧ e.target < f.target)

/-! ## Preference -/

theorem prefers_iff :
    s.prefers e f = true ↔
      s.depth f < s.depth e ∨
        s.depth f = s.depth e ∧
          (e.source < f.source ∨ e.source = f.source ∧ e.target < f.target) := by
  rw [prefers, depth, depth, eq_comm (a := s.discovery.get f.source + s.discovery.get f.target)]
  simp only [Bool.or_eq_true, Bool.and_eq_true, beq_iff_eq, decide_eq_true_iff]

/-- Of two different edges one is chosen before the other. -/
theorem prefers_or_prefers (hne : e ≠ f) : s.prefers e f = true ∨ s.prefers f e = true := by
  have hends : e.source ≠ f.source ∨ e.target ≠ f.target := by
    by_contra hends
    push Not at hends
    exact hne (by cases e; cases f; simp_all)
  rw [prefers_iff, prefers_iff]
  omega

theorem prefers_trans (heb : s.prefers e b = true) (hbf : s.prefers b f = true) :
    s.prefers e f = true := by
  rw [prefers_iff] at heb hbf ⊢
  omega

theorem preferred_concat (s : StrongComponents) (es : List Edge) (e : Edge) :
    s.preferred (es ++ [e]) =
      match s.preferred es with
      | none => some e
      | some b => if s.prefers e b then some e else some b := by
  rw [preferred, List.foldl_append]
  rfl

theorem preferred_eq_none_iff : s.preferred es = none ↔ es = [] := by
  refine ⟨fun h => by_contra fun hne => preferred_ne_none hne h, ?_⟩
  rintro rfl
  rfl

/-- The scan ends with the edge that is chosen before all others. -/
theorem prefers_of_preferred (he : s.preferred es = some e) :
    ∀ f ∈ es, f ≠ e → s.prefers e f = true := by
  induction es using List.reverseRecOn generalizing e with
  | nil => simp
  | append_singleton es g ih =>
    intro f hf hne
    rw [preferred_concat] at he
    rw [List.mem_append, List.mem_singleton] at hf
    cases hbest : s.preferred es with
    | none =>
      -- nothing stands in front of `g`
      rw [hbest] at he
      obtain rfl : g = e := Option.some.inj he
      simp [preferred_eq_none_iff.1 hbest, hne] at hf
    | some b =>
      simp only [hbest] at he
      split at he
      · rename_i hgb
        obtain rfl : g = e := Option.some.inj he
        have hf : f ∈ es := hf.resolve_right hne
        by_cases hfb : f = b
        · rwa [hfb]
        · exact prefers_trans hgb (ih hbest f hf hfb)
      · rename_i hgb
        obtain rfl : b = e := Option.some.inj he
        rcases hf with hf | rfl
        · exact ih hbest f hf hne
        · exact (prefers_or_prefers hne).resolve_left hgb

theorem Deepest.unique (he : s.Deepest es e) (hf : s.Deepest es f) : e = f := by
  by_contra hne
  have hef := he.2 f hf.1 (Ne.symm hne)
  have hfe := hf.2 e he.1 hne
  omega

theorem preferred_eq_some_iff : s.preferred es = some e ↔ s.Deepest es e := by
  have hdeepest : ∀ {f}, s.preferred es = some f → s.Deepest es f := fun hf =>
    ⟨mem_of_preferred_eq_some hf, fun g hg hne => prefers_iff.1 (prefers_of_preferred hf g hg hne)⟩
  refine ⟨hdeepest, fun he => ?_⟩
  obtain ⟨f, hf⟩ := Option.ne_none_iff_exists'.1
    (preferred_ne_none (s := s) (List.ne_nil_of_mem he.1))
  rw [hf, (hdeepest hf).unique he]

/-! ## The best back edges, in one fold -/

/-- Puts a back edge into the cell of its component, if it is chosen before the one that is there. -/
def keep (s : StrongComponents) (best : NodeMap (Option Edge)) (e : Edge) : NodeMap (Option Edge) :=
  match best.get (s.componentOf.get e.source) with
  | none => best.set (s.componentOf.get e.source) (some e)
  | some f => if s.prefers e f then best.set (s.componentOf.get e.source) (some e) else best

theorem get_keep (s : StrongComponents) (best : NodeMap (Option Edge)) (e : Edge) (i : Nat) :
    (s.keep best e).get i =
      if s.componentOf.get e.source == i then
        match best.get i with
        | none => some e
        | some f => if s.prefers e f then some e else some f
      else best.get i := by
  unfold keep
  by_cases hi : s.componentOf.get e.source = i
  · subst hi
    cases hbest : best.get (s.componentOf.get e.source) with
    | none => simp
    | some f => by_cases hf : s.prefers e f = true <;> simp [hf, hbest]
  · cases best.get (s.componentOf.get e.source) with
    | none => simp [hi, Ne.symm hi]
    | some f => by_cases hf : s.prefers e f = true <;> simp [hf, hi, Ne.symm hi]

theorem eq_or_mem_of_mem_keep {s : StrongComponents} {best : NodeMap (Option Edge)} {e f : Edge}
    {i : Nat} (h : f ∈ (s.keep best e).get i) : f = e ∨ f ∈ best.get i := by
  rw [get_keep] at h
  split at h
  · split at h
    · exact .inl (Option.some.inj h).symm
    · rename_i b hb
      split at h
      · exact .inl (Option.some.inj h).symm
      · exact .inr (hb ▸ h)
  · exact .inr h

/-- In the cell of a component the edge is kept that is chosen of its back edges. -/
theorem get_foldl_keep (s : StrongComponents) (es : List Edge) (i : Nat) :
    (es.foldl s.keep (.const none)).get i =
      s.preferred (es.filter (s.componentOf.get ·.source == i)) := by
  suffices h : ∀ best : NodeMap (Option Edge), (es.foldl s.keep best).get i =
      (es.filter (s.componentOf.get ·.source == i)).foldl (fun best e =>
        match best with
        | none => some e
        | some b => if s.prefers e b then some e else some b) (best.get i) from h _
  induction es with
  | nil => exact fun _ => rfl
  | cons e es ih =>
    intro best
    rw [List.foldl_cons, ih, get_keep, List.filter_cons]
    split <;> rfl

/-! ## The back edges of a component -/

theorem mem_backEdgesWithin :
    e ∈ s.backEdgesWithin c ↔ e ∈ s.backEdges ∧ e.source ∈ c ∧ e.target ∈ c := by
  rw [backEdgesWithin, List.mem_filter, decide_eq_true_iff]

/-- A back edge stays in the component of its source. -/
theorem target_mem_of_source_mem (hc : c ∈ a.strongComponents.components)
    (he : e ∈ a.strongComponents.backEdges) (hsource : e.source ∈ c) : e.target ∈ c := by
  obtain ⟨-, hedge, -⟩ := of_mem_backEdges_depthFirst he
  exact ((settled a).mem_iff c hc _ hsource _).2
    ⟨.single hedge, reaches_of_mem_backEdges_depthFirst he⟩

/-- The back edges whose source is recorded at a component are those inside it. -/
theorem filter_componentOf (hc : a.strongComponents.components[i]? = some c) :
    a.strongComponents.backEdges.filter (a.strongComponents.componentOf.get ·.source == i) =
      a.strongComponents.backEdgesWithin c := by
  obtain ⟨hi, rfl⟩ := List.getElem?_eq_some_iff.1 hc
  refine List.filter_congr fun e he => ?_
  rw [Bool.eq_iff_iff, beq_iff_eq, decide_eq_true_iff]
  constructor
  · intro hhome
    have hnode := (a.lt_of_mem_succ (of_mem_backEdges_depthFirst he).2.1).1
    obtain ⟨c, hmem, hsource⟩ := List.mem_flatten.1 (mem_components_iff.2 hnode)
    obtain ⟨j, hj, rfl⟩ := List.getElem_of_mem hmem
    rw [get_componentOf hj hsource] at hhome
    subst hhome
    exact ⟨hsource, target_mem_of_source_mem (List.getElem_mem hj) he hsource⟩
  · exact fun hends => get_componentOf hi hends.1

/-- The components of more than one node are those with back edges inside them. -/
theorem backEdgesWithin_ne_nil_iff (hc : c ∈ a.strongComponents.components) :
    a.strongComponents.backEdgesWithin c ≠ [] ↔ 1 < c.length := by
  constructor
  · intro hne
    obtain ⟨e, he⟩ := List.exists_mem_of_ne_nil _ hne
    obtain ⟨he, hsource, htarget⟩ := mem_backEdgesWithin.1 he
    have hends := (of_mem_backEdges_depthFirst he).1
    have hsub : [e.source, e.target].Subperm c :=
      List.subperm_of_subset (by simpa using hends) (by simp [hsource, htarget])
    exact hsub.length_le
  · intro hlen
    obtain ⟨e, he, hends⟩ := exists_mem_backEdges_of_component hc hlen
    exact List.ne_nil_of_mem (mem_backEdgesWithin.2 ⟨he, hends⟩)

/-! ## The edges of a pass -/

/-- The cell of a component holds the deepest of its back edges after the scan. -/
theorem get_foldl_keep_eq_some_iff (hc : a.strongComponents.components[i]? = some c) :
    (a.strongComponents.backEdges.foldl a.strongComponents.keep (.const none)).get i = some e ↔
      a.strongComponents.Deepest (a.strongComponents.backEdgesWithin c) e := by
  rw [get_foldl_keep, filter_componentOf hc, preferred_eq_some_iff]

/-- The cell of a single node stays empty, and no other one does. -/
theorem get_foldl_keep_eq_none_iff (hc : a.strongComponents.components[i]? = some c) :
    (a.strongComponents.backEdges.foldl a.strongComponents.keep (.const none)).get i = none ↔
      ¬1 < c.length := by
  rw [← backEdgesWithin_ne_nil_iff (List.mem_of_getElem? hc), not_not, get_foldl_keep,
    filter_componentOf hc, preferred_eq_none_iff]

/-- In a component of more than one node one of its back edges is chosen. -/
theorem exists_mem_chosen_within (hc : c ∈ a.strongComponents.components) (hlen : 1 < c.length) :
    ∃ e ∈ a.strongComponents.chosen, e ∈ a.strongComponents.backEdgesWithin c := by
  obtain ⟨i, hi, rfl⟩ := List.getElem_of_mem hc
  obtain ⟨e, he, hhome⟩ := exists_mem_chosen hi hlen
  refine ⟨e, he, ?_⟩
  rw [← filter_componentOf (List.getElem?_eq_getElem hi)]
  exact List.mem_filter.2 ⟨mem_backEdges_of_mem_chosen he, by simpa using hhome⟩

/-- The chosen edges are those in the cells of the components. -/
theorem chosen_eq_row (a : Adjacency) :
    a.strongComponents.chosen =
      ((a.strongComponents.backEdges.foldl a.strongComponents.keep (.const none)).row
        a.strongComponents.components.length).filterMap id := by
  have hcells : ∀ p ∈ a.strongComponents.components.zipIdx,
      (if 1 < p.1.length then a.strongComponents.preferred
        (a.strongComponents.backEdges.filter (a.strongComponents.componentOf.get ·.source == p.2))
      else none) =
        (a.strongComponents.backEdges.foldl a.strongComponents.keep (.const none)).get p.2 := by
    intro p hp
    split
    · rw [get_foldl_keep]
    · rename_i hlen
      exact ((get_foldl_keep_eq_none_iff (List.mem_zipIdx_iff_getElem?.1 hp)).2 hlen).symm
  have hsnd : a.strongComponents.components.zipIdx.map Prod.snd =
      List.range a.strongComponents.components.length := by
    rw [List.zipIdx_map_snd, List.range_eq_range']
  rw [chosen, NodeMap.row, ← hsnd, List.map_map, List.filterMap_map]
  exact List.filterMap_congr hcells

/-- What is picked for the members of a list, each with its position, stands in the order of the
members for which something is picked. -/
theorem forall₂_filterMap_zipIdx {α β : Type} {R : α → β → Prop} {p : α → Bool}
    {pick : α × Nat → Option β} {l : List α} {k : Nat}
    (hdrop : ∀ x i, p x = false → pick (x, i) = none)
    (hpick : ∀ x i, (x, i) ∈ l.zipIdx k → p x = true → ∃ y, pick (x, i) = some y ∧ R x y) :
    List.Forall₂ R (l.filter p) ((l.zipIdx k).filterMap pick) := by
  induction l generalizing k with
  | nil => exact .nil
  | cons x l ih =>
    rw [List.zipIdx_cons] at hpick ⊢
    have hrest := ih fun y i hi => hpick y i (List.mem_cons_of_mem _ hi)
    cases hx : p x with
    | false => rwa [List.filter_cons_of_neg (by simp [hx]), List.filterMap_cons_none (hdrop x k hx)]
    | true =>
      obtain ⟨y, hy, hR⟩ := hpick x k List.mem_cons_self hx
      rw [List.filter_cons_of_pos hx, List.filterMap_cons_some hy]
      exact .cons hR hrest

/-- The components of more than one node and the chosen edges stand side by side. -/
theorem forall₂_chosen (a : Adjacency) :
    List.Forall₂ (fun c e => a.strongComponents.Deepest (a.strongComponents.backEdgesWithin c) e)
      a.strongComponents.nontrivial a.strongComponents.chosen := by
  refine forall₂_filterMap_zipIdx (fun c i hc => if_neg (by simpa using hc)) fun c i hci hlen => ?_
  have hc : a.strongComponents.components[i]? = some c := List.mem_zipIdx_iff_getElem?.1 hci
  have hlen : 1 < c.length := of_decide_eq_true hlen
  have hne := (backEdgesWithin_ne_nil_iff (List.mem_of_getElem? hc)).2 hlen
  obtain ⟨e, he⟩ := Option.ne_none_iff_exists'.1 (preferred_ne_none (s := a.strongComponents) hne)
  refine ⟨e, (if_pos hlen).trans ?_, preferred_eq_some_iff.1 he⟩
  rwa [filter_componentOf hc]

/-- One scan of the back edges keeps in the cell of each component the best one that starts there,
and the edges in the cells are turned around. The cell of a single node stays empty. So there is one
edge for each component of more than one node, in the order of the components: of the back edges
inside the component, the one with the greatest sum of discovery indices, and of several such edges
the one that comes first in ascending order of source and target. -/
theorem chosen_deepest {κ : Type} (g : Digraph κ) :
    let s := g.adjacency.strongComponents
    let cells := s.backEdges.foldl s.keep (.const none)
    s.chosen = (cells.row s.components.length).filterMap id ∧
      (∀ i c, s.components[i]? = some c →
        (cells.get i = none ↔ c.length = 1) ∧
          ∀ e, cells.get i = some e ↔ s.Deepest (s.backEdgesWithin c) e) ∧
      List.Forall₂ (fun c e => s.Deepest (s.backEdgesWithin c) e) s.nontrivial s.chosen := by
  intro s cells
  refine ⟨chosen_eq_row _, fun i c hc => ⟨?_, fun e => get_foldl_keep_eq_some_iff hc⟩,
    forall₂_chosen _⟩
  have hpos := List.length_pos_iff.2 ((settled g.adjacency).ne_nil c (List.mem_of_getElem? hc))
  rw [get_foldl_keep_eq_none_iff hc]
  omega

end StrongComponents

end FlowBubbles
