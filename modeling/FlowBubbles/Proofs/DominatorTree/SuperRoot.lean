import FlowBubbles.Proofs.DominatorTree.Rooting

/-!
# The tree below a super-root

A path from the super-root is a path from an entry with the super-root in front of it
(`Adjacency.path_withSuperRoot_iff`). So a node dominates another one if it lies on all paths from
all entries to it, and the super-root is the parent of a node if no other node lies on all of these
paths (`Adjacency.immediatelyDominates_superRoot_iff`).
-/

namespace FlowBubbles

namespace Adjacency

variable {a : Adjacency} {u v : Nat} {p : List Nat}

/-! ## Paths from the super-root -/

theorem path_withSuperRoot_iff (hv : v < a.size) :
    Path (fun u v => v ∈ a.withSuperRoot.succ u) a.size v p ↔
      ∃ e ∈ a.entries, ∃ q, Path (fun u v => v ∈ a.succ u) e v q ∧ p = q ++ [a.size] := by
  constructor
  · intro h
    induction h with
    | start => exact absurd hv (Nat.lt_irrefl _)
    | @step u v p hp hedge ih =>
      rcases mem_succ_withSuperRoot.1 hedge with hedge | ⟨rfl, he⟩
      · obtain ⟨e, he, q, hq, rfl⟩ := ih (a.lt_of_mem_succ hedge).1
        exact ⟨e, he, v :: q, .step hq hedge, rfl⟩
      · -- no edge leads back to the super-root
        refine ⟨v, he, [v], .start, ?_⟩
        cases hp with
        | start => rfl
        | step _ hedge =>
          rcases mem_succ_withSuperRoot.1 hedge with hedge | ⟨-, he⟩
          · exact absurd (a.lt_of_mem_succ hedge).2 (Nat.lt_irrefl _)
          · exact absurd (a.lt_of_mem_entries he) (Nat.lt_irrefl _)
  · rintro ⟨e, he, q, hq, rfl⟩
    induction hq with
    | start => exact .step .start (mem_succ_withSuperRoot.2 (.inr ⟨rfl, he⟩))
    | step _ hedge ih =>
      exact .step (ih (a.lt_of_mem_succ hedge).1) (mem_succ_withSuperRoot.2 (.inl hedge))

/-- Whether `u` lies on every path from an entry to `v`. -/
def OnAllPaths (a : Adjacency) (u v : Nat) : Prop :=
  ∀ e ∈ a.entries, ∀ p, Path (fun u v => v ∈ a.succ u) e v p → u ∈ p

/-- A node dominates another one below the super-root if it lies on all paths from all entries. -/
theorem dominates_withSuperRoot_iff (h : a.Acyclic) (hu : u ≠ a.size) (hv : v < a.size) :
    Dominates (fun u v => v ∈ a.withSuperRoot.succ u) a.size u v ↔ a.OnAllPaths u v := by
  constructor
  · intro hdom e he q hq
    have hmem := hdom.2 _ ((path_withSuperRoot_iff hv).2 ⟨e, he, q, hq, rfl⟩)
    exact (List.mem_append.1 hmem).resolve_right (by simpa using hu)
  · intro hall
    obtain ⟨e, he, hreach⟩ := h.exists_entry hv
    obtain ⟨q, hq⟩ := exists_path_iff.2 hreach
    refine ⟨((path_withSuperRoot_iff hv).2 ⟨e, he, q, hq, rfl⟩).reaches, fun p hp => ?_⟩
    obtain ⟨e, he, q, hq, rfl⟩ := (path_withSuperRoot_iff hv).1 hp
    exact List.mem_append_left _ (hall e he q hq)

/-- What lies on all paths from the entries to a node is a node of the graph. -/
theorem OnAllPaths.lt_size (h : a.Acyclic) (hv : v < a.size) (hall : a.OnAllPaths u v) :
    u < a.size := by
  obtain ⟨e, he, hreach⟩ := h.exists_entry hv
  obtain ⟨p, hp⟩ := exists_path_iff.2 hreach
  obtain ⟨q, hq, -⟩ := hp.exists_of_mem (hall e he p hp)
  exact Reaches.lt_size hq.reaches (a.lt_of_mem_entries he)

/-- The super-root is the immediate dominator of the nodes that are alone on the paths to them. -/
theorem immediatelyDominates_superRoot_iff (h : a.Acyclic) (hv : v < a.size) :
    ImmediatelyDominates (fun u v => v ∈ a.withSuperRoot.succ u) a.size a.size v ↔
      ∀ u < a.size, u ≠ v → ¬a.OnAllPaths u v := by
  constructor
  · rintro ⟨-, -, hlast⟩ u hu hne hall
    have hroot := hlast u hne ((dominates_withSuperRoot_iff h (Nat.ne_of_lt hu) hv).2 hall)
    rw [dominates_root_iff] at hroot
    exact Nat.ne_of_lt hu hroot
  · intro hnone
    obtain ⟨e, he, hreach⟩ := h.exists_entry hv
    obtain ⟨q, hq⟩ := exists_path_iff.2 hreach
    have hpath := (path_withSuperRoot_iff hv).2 ⟨e, he, q, hq, rfl⟩
    refine ⟨Nat.ne_of_gt hv, ⟨hpath.reaches, fun p hp => hp.mem_root⟩, fun x hne hdom => ?_⟩
    by_cases hx : x = a.size
    · rw [hx]
      exact .refl .refl
    · have hall := (dominates_withSuperRoot_iff h hx hv).1 hdom
      exact absurd hall (hnone x (hall.lt_size h hv) hne)

/-! ## The nodes below the super-root -/

/-- An entry is alone on the path of no edges. -/
theorem not_onAllPaths_of_entry (hv : v ∈ a.entries) (hne : u ≠ v) : ¬a.OnAllPaths u v := by
  intro hall
  exact hne (List.mem_singleton.1 (hall v hv [v] .start))

/-- A node that is no entry, and shares no other node on the paths to it, is reached from two
entries. -/
theorem exists_two_entries (h : a.Acyclic) (hv : v < a.size) (hentry : v ∉ a.entries)
    (hnone : ∀ u < a.size, u ≠ v → ¬a.OnAllPaths u v) :
    ∃ e ∈ a.entries, ∃ e' ∈ a.entries, e ≠ e' ∧ a.Reaches e v ∧ a.Reaches e' v := by
  obtain ⟨e, he, hreach⟩ := h.exists_entry hv
  have hne : e ≠ v := fun heq => hentry (heq ▸ he)
  -- some path misses the entry, and so it starts at another one
  have hmiss := hnone e (a.lt_of_mem_entries he) hne
  unfold OnAllPaths at hmiss
  push Not at hmiss
  obtain ⟨e', he', p, hp, hmem⟩ := hmiss
  exact ⟨e, he, e', he', fun heq => hmem (heq ▸ hp.mem_root), hreach, hp.reaches⟩

/-- A node that is no entry, and shares no other node on the paths to it, has two predecessors other
than itself. -/
theorem exists_two_preds (hv : v < a.size) (hentry : v ∉ a.entries)
    (hnone : ∀ u < a.size, u ≠ v → ¬a.OnAllPaths u v) :
    ∃ u u', u ≠ u' ∧ u ≠ v ∧ u' ≠ v ∧ v ∈ a.succ u ∧ v ∈ a.succ u' := by
  have hpred : ¬∀ u, v ∈ a.succ u → u = v := fun hall => hentry (mem_entries_iff.2 ⟨hv, hall⟩)
  push Not at hpred
  obtain ⟨u, hedge, hne⟩ := hpred
  -- some path misses the predecessor, and so it comes from another one
  have hmiss := hnone u (a.lt_of_mem_succ hedge).1 hne
  unfold OnAllPaths at hmiss
  push Not at hmiss
  obtain ⟨e, he, p, hp, hmem⟩ := hmiss
  obtain ⟨u', hu', hne', hedge'⟩ := hp.exists_pred_ne fun heq => hentry (heq ▸ he)
  exact ⟨u, u', fun heq => hmem (heq ▸ hu'), hne, hne', hedge, hedge'⟩

end Adjacency

namespace Dag

variable {κ : Type}

/-- The children of the super-root are the nodes that are alone on the paths to them. -/
theorem mem_children_joinedTree_iff (d : Dag κ) {v : Nat} :
    v ∈ d.joinedTree.children d.graph.size ↔
      v < d.graph.size ∧ ∀ u < d.graph.size, u ≠ v → ¬d.graph.adjacency.OnAllPaths u v := by
  have hagrees := d.agreesWith_joinedTree
  have hacyclic := d.isTopological_order.acyclic
  have hlt : v ∈ d.joinedTree.children d.graph.size → v < d.graph.size := by
    intro hv
    have hdom := hagrees.mem_children_iff.1 hv
    have hle := d.contains_joinedTree_iff.1 ((hagrees.contains_iff v).2 hdom.2.1.1)
    exact Nat.lt_of_le_of_ne hle hdom.1.symm
  rw [leads_joinedTree] at hagrees
  have hiff : ∀ hv : v < d.graph.size, v ∈ d.joinedTree.children d.graph.size ↔ _ := fun hv =>
    hagrees.mem_children_iff.trans (Adjacency.immediatelyDominates_superRoot_iff hacyclic hv)
  exact ⟨fun hv => ⟨hlt hv, (hiff (hlt hv)).1 hv⟩, fun h => (hiff h.1).2 h.2⟩

variable [DecidableEq κ] [KeyText κ]

/-- With several entries, and without a key for the root, there is a tree below a super-root. -/
theorem dominatorTree_eq_joinedTree (d : Dag κ) (h : 1 < d.graph.adjacency.entries.length)
    (allow : Bool) : d.dominatorTree none allow = .ok d.joinedTree := by
  refine d.dominatorTree_eq_ok_iff.2 ⟨?_, .inl d.unreachable_joinedTree⟩
  obtain ⟨e, he⟩ := List.exists_mem_of_length_pos (Nat.lt_of_succ_lt h)
  have hpos : 0 < d.graph.size := Nat.zero_lt_of_lt (d.graph.adjacency.lt_of_mem_entries he)
  rw [d.anyTree_none hpos]
  rcases d.naturalTree_cases hpos with ⟨root, hentries, -⟩ | ⟨-, htree⟩
  · simp [hentries] at h
  · exact htree

/-- An acyclic graph with several entries, and no key for the root, gets a tree of all nodes below a
super-root. A node of the graph dominates another one if it lies on every path to it from every
entry, and the super-root is the immediate dominator of a node if no other node lies on all of these
paths. The entries are the nodes without a predecessor other than themselves. They are children of
the super-root; any other child of it is reached from two entries, and from two predecessors. -/
theorem dominatorTree_of_several_entries (d : Dag κ) (h : 1 < d.graph.adjacency.entries.length)
    (allow : Bool) :
    ∃ t, d.dominatorTree none allow = .ok t ∧
      (t.superRoot = some d.graph.size ∧ t.root = d.graph.size) ∧
      (∀ v, t.contains v = true ↔ v ≤ d.graph.size) ∧
      (∀ u < d.graph.size, ∀ v < d.graph.size, t.dominates u v = true ↔
        ∀ e ∈ t.entries, ∀ p, Path (fun u v => v ∈ d.graph.adjacency.succ u) e v p → u ∈ p) ∧
      (∀ v < d.graph.size, t.immediateDominator v = some d.graph.size ↔
        ∀ u < d.graph.size, u ≠ v →
          ¬∀ e ∈ t.entries, ∀ p, Path (fun u v => v ∈ d.graph.adjacency.succ u) e v p → u ∈ p) ∧
      (t.entries.Pairwise (· < ·) ∧ ∀ v, v ∈ t.entries ↔
        v < d.graph.size ∧ ∀ e ∈ d.graph.edges, e.target = v → e.source = v) ∧
      (∀ v ∈ t.entries, v ∈ t.children d.graph.size) ∧
      ∀ v ∈ t.children d.graph.size, v ∉ t.entries →
        (∃ e ∈ t.entries, ∃ e' ∈ t.entries, e ≠ e' ∧
          d.graph.adjacency.Reaches e v ∧ d.graph.adjacency.Reaches e' v) ∧
        ∃ u u', u ≠ u' ∧ u ≠ v ∧ u' ≠ v ∧
          v ∈ d.graph.adjacency.succ u ∧ v ∈ d.graph.adjacency.succ u' := by
  have hacyclic := d.isTopological_order.acyclic
  have hagrees := d.agreesWith_joinedTree
  rw [leads_joinedTree] at hagrees
  refine ⟨d.joinedTree, d.dominatorTree_eq_joinedTree h allow, ⟨rfl, rfl⟩,
    fun v => d.contains_joinedTree_iff, fun u hu v hv => ?_, fun v hv => ?_,
    ⟨d.graph.adjacency.pairwise_entries, fun v => Digraph.mem_entries_adjacency⟩, fun v hv => ?_,
    fun v hv hentry => ?_⟩
  · exact (hagrees.dominates_iff u v).trans
      (Adjacency.dominates_withSuperRoot_iff hacyclic (Nat.ne_of_lt hu) hv)
  · exact (hagrees.immediateDominator_iff _ v).trans
      (Adjacency.immediatelyDominates_superRoot_iff hacyclic hv)
  · exact d.mem_children_joinedTree_iff.2 ⟨d.graph.adjacency.lt_of_mem_entries hv,
      fun u _ hne => Adjacency.not_onAllPaths_of_entry hv hne⟩
  · obtain ⟨hlt, hnone⟩ := d.mem_children_joinedTree_iff.1 hv
    exact ⟨Adjacency.exists_two_entries hacyclic hlt hentry hnone,
      Adjacency.exists_two_preds hlt hentry hnone⟩

/-- Two entries merge in node 3, and its edge merges with one of a third entry in node 4. -/
def confluence : Dag String where
  graph :=
    { labels := #["a", "b", "c", "d", "e", "f"]
      edges := #[⟨0, 3⟩, ⟨1, 3⟩, ⟨2, 4⟩, ⟨3, 4⟩, ⟨4, 5⟩, ⟨0, 0⟩, ⟨4, 5⟩]
      edges_lt := by decide
      nodup := by decide }
  order := [0, 1, 2, 3, 4, 5]
  order_eq := by decide
  rounds := []
  turnedAt := []

theorem several_entries_confluence :
    1 < confluence.graph.adjacency.entries.length ∧
      ∃ t, confluence.dominatorTree none false = .ok t ∧
        t.children 6 = [0, 1, 2, 3, 4] ∧ t.entries = [0, 1, 2] ∧
        ∃ e ∈ t.entries, ∃ e' ∈ t.entries, e ≠ e' ∧
          confluence.graph.adjacency.Reaches e 4 ∧ confluence.graph.adjacency.Reaches e' 4 := by
  have hseveral : 1 < confluence.graph.adjacency.entries.length := by decide
  obtain ⟨t, ht, -, -, -, -, -, -, hchild⟩ :=
    dominatorTree_of_several_entries confluence hseveral false
  have hread : (confluence.dominatorTree none false).map (fun t => (t.children 6, t.entries)) =
      .ok ([0, 1, 2, 3, 4], [0, 1, 2]) := by decide
  simp only [ht, Except.map, Except.ok.injEq, Prod.mk.injEq] at hread
  obtain ⟨hchildren, hentries⟩ := hread
  have hmem : 4 ∈ t.children confluence.graph.size := by
    rw [show confluence.graph.size = 6 from rfl, hchildren]
    decide
  obtain ⟨htwo, -⟩ := hchild 4 hmem (by simp [hentries])
  exact ⟨hseveral, t, ht, hchildren, hentries, htwo⟩

end Dag

end FlowBubbles
