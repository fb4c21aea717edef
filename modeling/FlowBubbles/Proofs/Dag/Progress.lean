import FlowBubbles.Proofs.Dag.Pass
import FlowBubbles.Proofs.DepthFirst.Finishing
import FlowBubbles.Proofs.StrongComponents.Components

/-!
# Every pass makes progress

Each component of more than one node has a back edge in it, so that a pass turns an edge in each of
them. As a pass takes the turned edges out of the list of back edges, there are no more passes than
back edges, of which there are no more than edges.
-/

namespace FlowBubbles

open DepthFirst

/-! ## The component of a node -/

namespace StrongComponents

theorem get_foldl_components {cs : List (List Nat)} (hnodup : cs.flatten.Nodup) (k : Nat)
    (m : NodeMap Nat) (x : Nat) :
    let m' := (cs.zipIdx k).foldl (fun m (c, i) => c.foldl (fun m v => m.set v i) m) m
    (∀ i, ∀ (hi : i < cs.length), x ∈ cs[i] → m'.get x = k + i) ∧
      (x ∉ cs.flatten → m'.get x = m.get x) := by
  induction cs generalizing k m with
  | nil => simp
  | cons c cs ih =>
    rw [List.flatten_cons, List.nodup_append] at hnodup
    obtain ⟨hin, hout⟩ := ih hnodup.2.1 (k + 1) (c.foldl (fun m v => m.set v k) m)
    simp only [List.zipIdx_cons, List.foldl_cons]
    refine ⟨?_, ?_⟩
    · intro i hi hx
      cases i with
      | zero =>
        rw [List.getElem_cons_zero] at hx
        rw [hout fun hx' => hnodup.2.2 x hx x hx' rfl, NodeMap.get_foldl_set (fun _ => k),
          if_pos hx, Nat.add_zero]
      | succ i =>
        rw [List.getElem_cons_succ] at hx
        rw [hin i (by simpa using hi) hx]
        omega
    · intro hx
      rw [List.flatten_cons, List.mem_append, not_or] at hx
      rw [hout hx.2, NodeMap.get_foldl_set (fun _ => k), if_neg hx.1]

/-- The position of a component is recorded at its nodes. -/
theorem get_componentOf {a : Adjacency} {i x : Nat} (hi : i < a.strongComponents.components.length)
    (hx : x ∈ a.strongComponents.components[i]) : a.strongComponents.componentOf.get x = i := by
  have h := (get_foldl_components (settled a).nodup 0 (.const 0) x).1 i hi hx
  rwa [Nat.zero_add] at h

/-- A component of more than one node has an edge chosen in it. -/
theorem exists_mem_chosen {a : Adjacency} {i : Nat}
    (hi : i < a.strongComponents.components.length)
    (hlen : 1 < a.strongComponents.components[i].length) :
    ∃ e ∈ a.strongComponents.chosen, a.strongComponents.componentOf.get e.source = i := by
  have hsettled := settled a
  have hmem := List.getElem_mem hi
  have hnodup := (List.nodup_flatten.1 hsettled.nodup).1 _ hmem
  have hzero : 0 < a.strongComponents.components[i].length := by omega
  have hne : a.strongComponents.components[i][0] ≠ a.strongComponents.components[i][1] := fun h =>
    absurd (hnodup.getElem_inj_iff.1 h) Nat.zero_ne_one
  have hmutual := (hsettled.mem_iff _ hmem _ (List.getElem_mem hzero) _).1 (List.getElem_mem hlen)
  -- two nodes of the component lie on a cycle, which has a back edge in it
  obtain ⟨e, he, hsource⟩ := exists_mem_backEdges hmutual hne
  have hsource := (hsettled.mem_iff _ hmem _ (List.getElem_mem hzero) _).2 hsource
  have hfilter : a.strongComponents.backEdges.filter
      (a.strongComponents.componentOf.get ·.source == i) ≠ [] :=
    List.ne_nil_of_mem (List.mem_filter.2 ⟨he, by simp [get_componentOf hi hsource]⟩)
  obtain ⟨f, hf⟩ := Option.ne_none_iff_exists'.1 (preferred_ne_none hfilter)
  refine ⟨f, mem_chosen.2 ⟨i, _, List.getElem?_eq_getElem hi, hlen, hf⟩, ?_⟩
  simpa using (List.mem_filter.1 (mem_of_preferred_eq_some hf)).2

/-- A pass over a graph with a cycle of two or more nodes turns an edge. -/
theorem chosen_ne_nil {a : Adjacency} (h : ¬a.Acyclic) : a.strongComponents.chosen ≠ [] := by
  unfold Adjacency.Acyclic at h
  push Not at h
  obtain ⟨u, v, hmutual, hne⟩ := h
  obtain ⟨w, hedge, -⟩ := hmutual.1.exists_succ_ne hne
  have hu := mem_components_iff.2 (a.lt_of_mem_succ hedge).1
  obtain ⟨c, hc, huc, hvc⟩ := ((settled a).exists_mem_iff hu).2 hmutual
  obtain ⟨i, hi, rfl⟩ := List.getElem_of_mem hc
  have hlen : 1 < a.strongComponents.components[i].length := by
    have hsub : [u, v].Subperm a.strongComponents.components[i] :=
      List.subperm_of_subset (by simpa using hne) (by simp [huc, hvc])
    exact hsub.length_le
  obtain ⟨e, he, -⟩ := exists_mem_chosen hi hlen
  exact List.ne_nil_of_mem he

end StrongComponents

/-! ## The number of back edges -/

namespace DepthFirst

variable {a : Adjacency} {p : Option Nat} {ws : List Nat} {m m' : Nat → Mark} {es : List Event}

theorem length_backEdges_revisits_le (p : Option Nat) (w : Nat) (k : Mark) :
    (backEdges (revisits p w k)).length ≤ 1 := by
  cases p with
  | none => simp [revisits]
  | some v => exact List.length_filterMap_le ..

/-- Every edge that a scan follows is met as a back edge at most once. -/
theorem Scan.length_backEdges_le (h : Scan a p ws m es m') :
    (backEdges es).length ≤
      (if p.isSome then ws.length else 0) +
        ((discovered es).map fun v => (a.succ v).length).sum := by
  induction h with
  | nil => simp
  | @enter p w ws m m₁ m₂ es₁ es₂ _ _ _ ihbelow ihrest =>
    rw [backEdges_enter, discovered_enter]
    simp only [Option.isSome_some, if_true, List.length_append, List.map_cons, List.map_append,
      List.sum_cons, List.sum_append, List.length_cons] at ihbelow ihrest ⊢
    split at ihrest <;> simp_all <;> omega
  | @skip p w ws m m' es _ _ ih =>
    have hone := length_backEdges_revisits_le p w (m w)
    rw [backEdges_append, discovered_append, discovered_revisits, List.nil_append,
      List.length_append, List.length_cons]
    cases p with
    | none => simpa [revisits] using ih
    | some v =>
      simp only [Option.isSome_some, if_true] at ih ⊢
      omega

end DepthFirst

/-- Every edge has one key, so that the keys share the edges out among themselves. -/
theorem sum_length_filter {n : Nat} {key : Edge → Nat} {es : List Edge}
    (h : ∀ e ∈ es, key e < n) :
    ∑ v ∈ Finset.range n, (es.filter (key · == v)).length = es.length := by
  induction es with
  | nil => simp
  | cons e es ih =>
    have hcons : ∀ v, ((e :: es).filter (key · == v)).length =
        (es.filter (key · == v)).length + if key e = v then 1 else 0 := fun v => by
      by_cases hv : key e = v <;> simp [hv]
    have hmem : key e ∈ Finset.range n := Finset.mem_range.2 (h e List.mem_cons_self)
    rw [Finset.sum_congr rfl fun v _ => hcons v, Finset.sum_add_distrib,
      ih fun e he => h e (List.mem_cons_of_mem _ he), Finset.sum_ite_eq, if_pos hmem,
      List.length_cons]

/-- A graph has no more back edges than edges. -/
theorem Digraph.length_backEdges_le {κ : Type} (g : Digraph κ) :
    (backEdges g.adjacency.depthFirst).length ≤ g.edgeCount := by
  obtain ⟨m, hscan⟩ := g.adjacency.scan_depthFirst
  calc (backEdges g.adjacency.depthFirst).length
      ≤ ((discovered g.adjacency.depthFirst).map fun v => (g.adjacency.succ v).length).sum := by
        simpa using hscan.length_backEdges_le
    _ = (g.adjacency.nodes.map fun v => (g.adjacency.succ v).length).sum :=
        ((perm_discovered_depthFirst g.adjacency).map _).sum_eq
    _ = ∑ v ∈ Finset.range g.size, (g.adjacency.succ v).length := rfl
    _ = g.edgeCount := by
        simp only [succ_adjacency, successors, List.length_map]
        exact sum_length_filter fun e he => (g.edges_lt e (by simpa using he)).1

end FlowBubbles
