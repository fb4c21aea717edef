import FlowBubbles.Analysis.Observer
import FlowBubbles.Proofs.DominatorTree.Rooting

/-!
# Bubbles and paths

The tree of an analysis says what the paths from its root say (`Dag.agreesWith_of_dominatorTree`),
and its nodes have ranks that grow along the edges. So a bubble runs from a merge node to the node
of the greatest rank among those that the merge node immediately dominates (`Dag.mem_bubbles_iff`),
and no other bubble starts or ends there.
-/

namespace FlowBubbles

/-! ## The latest node -/

namespace Bubble

variable {rank : Nat → Nat} {l : List Nat} {v e : Nat}

theorem latest_concat (rank : Nat → Nat) (l : List Nat) (v : Nat) :
    latest rank (l ++ [v]) =
      match latest rank l with
      | none => some v
      | some b => if rank b ≤ rank v then some v else some b :=
  List.foldl_concat ..

theorem exists_latest (rank : Nat → Nat) (hl : l ≠ []) : ∃ e, latest rank l = some e := by
  induction l using List.reverseRecOn with
  | nil => exact absurd rfl hl
  | append_singleton l v _ =>
    rw [latest_concat]
    cases latest rank l with
    | none => exact ⟨v, rfl⟩
    | some b =>
      by_cases hle : rank b ≤ rank v
      · exact ⟨v, if_pos hle⟩
      · exact ⟨b, if_neg hle⟩

/-- The latest node is listed, and no listed node has a greater rank. -/
theorem of_latest_eq_some (h : latest rank l = some e) : e ∈ l ∧ ∀ x ∈ l, rank x ≤ rank e := by
  induction l using List.reverseRecOn generalizing e with
  | nil => cases h
  | append_singleton l v ih =>
    rw [latest_concat] at h
    simp only [List.mem_append, List.mem_singleton]
    cases hl : latest rank l with
    | none =>
      rw [hl] at h
      obtain rfl : v = e := Option.some.inj h
      -- nothing is listed before it
      have hnil : l = [] := by
        by_contra hne
        obtain ⟨b, hb⟩ := exists_latest rank hne
        simp [hl] at hb
      simp [hnil]
    | some b =>
      obtain ⟨hb, hmax⟩ := ih hl
      rw [hl] at h
      by_cases hle : rank b ≤ rank v
      · obtain rfl : v = e := Option.some.inj ((if_pos hle).symm.trans h)
        refine ⟨.inr rfl, fun x hx => ?_⟩
        rcases hx with hx | rfl
        · exact Nat.le_trans (hmax x hx) hle
        · exact Nat.le_refl _
      · obtain rfl : b = e := Option.some.inj ((if_neg hle).symm.trans h)
        refine ⟨.inl hb, fun x hx => ?_⟩
        rcases hx with hx | rfl
        · exact hmax x hx
        · exact Nat.le_of_not_le hle

/-- If no two listed nodes share a rank, the latest node is the only one of its rank. -/
theorem latest_eq_some_iff (hinj : ∀ x ∈ l, ∀ y ∈ l, rank x = rank y → x = y) :
    latest rank l = some e ↔ e ∈ l ∧ ∀ x ∈ l, x ≠ e → rank x < rank e := by
  constructor
  · intro h
    obtain ⟨he, hmax⟩ := of_latest_eq_some h
    exact ⟨he, fun x hx hne => Nat.lt_of_le_of_ne (hmax x hx) fun heq =>
      hne (hinj x hx e he heq)⟩
  · rintro ⟨he, hlast⟩
    obtain ⟨b, hb⟩ := exists_latest rank (List.ne_nil_of_mem he)
    obtain ⟨hbl, hmax⟩ := of_latest_eq_some hb
    by_cases heq : b = e
    · rwa [← heq]
    · exact absurd (hlast b hbl heq) (Nat.not_lt_of_le (hmax e he))

end Bubble

/-! ## The bubbles of a tree -/

theorem Digraph.length_pred_adjacency {κ : Type} {g : Digraph κ} {v : Nat} :
    (g.adjacency.pred v).length = g.edges.toList.countP (·.target == v) := by
  rw [pred_adjacency, predecessors, List.length_map, List.countP_eq_length_filter]

namespace Dag

variable {κ : Type} (d : Dag κ)

theorem get_ranks {v : Nat} (hv : v < d.graph.size) : d.ranks.get v = d.order.idxOf v := by
  have htop := d.isTopological_order
  rw [ranks, NodeMap.get_positions htop.nodup, if_pos (htop.mem_iff.2 hv)]

variable [DecidableEq κ] [KeyText κ] {entry : Option κ} {allow : Bool} {t : DominatorTree}

/-- The end of a bubble is the node of the greatest rank that its start immediately dominates. -/
theorem latest_children_eq_some_iff (h : d.dominatorTree entry allow = .ok t) {s e : Nat} :
    Bubble.latest d.ranks.get (t.children s) = some e ↔
      ImmediatelyDominates (d.Leads t) t.root s e ∧
        ∀ x, ImmediatelyDominates (d.Leads t) t.root s x → x ≠ e →
          d.order.idxOf x < d.order.idxOf e := by
  have hagrees := d.agreesWith_of_dominatorTree h
  have hrank : ∀ {x}, ImmediatelyDominates (d.Leads t) t.root s x →
      d.ranks.get x = d.order.idxOf x := fun hx =>
    d.get_ranks (d.lt_size_of_immediatelyDominates h hx)
  have hinj : ∀ x ∈ t.children s, ∀ y ∈ t.children s, d.ranks.get x = d.ranks.get y → x = y := by
    intro x hx y hy heq
    rw [hagrees.mem_children_iff] at hx hy
    rw [hrank hx, hrank hy] at heq
    have hmem := d.isTopological_order.mem_iff.2 (d.lt_size_of_immediatelyDominates h hx)
    exact (List.idxOf_inj hmem).1 heq
  rw [Bubble.latest_eq_some_iff hinj, hagrees.mem_children_iff]
  refine and_congr_right fun he => ⟨fun hlast x hx hne => ?_, fun hlast x hx hne => ?_⟩
  · have hlt := hlast x (hagrees.mem_children_iff.2 hx) hne
    rwa [hrank hx, hrank he] at hlt
  · have hdom := hagrees.mem_children_iff.1 hx
    rw [hrank hdom, hrank he]
    exact hlast x hdom hne

/-- A bubble leads from a merge node of the tree to the last node that it immediately dominates. -/
theorem mem_bubbles_iff (h : d.dominatorTree entry allow = .ok t) {s e : Nat} :
    ⟨s, e⟩ ∈ d.bubbles t ↔
      (t.superRoot ≠ some s ∧ Relation.ReflTransGen (d.Leads t) t.root s) ∧
        2 ≤ d.graph.edges.toList.countP (·.target == s) ∧
        ImmediatelyDominates (d.Leads t) t.root s e ∧
        ∀ x, ImmediatelyDominates (d.Leads t) t.root s x → x ≠ e →
          d.order.idxOf x < d.order.idxOf e := by
  rw [← (d.agreesWith_of_dominatorTree h).mem_nodes_iff, ← Digraph.length_pred_adjacency,
    ← d.latest_children_eq_some_iff h]
  simp only [bubbles, List.mem_filterMap, List.mem_filter, decide_eq_true_eq,
    Option.map_eq_some_iff, Bubble.mk.injEq]
  constructor
  · rintro ⟨v, ⟨hnode, hmerge⟩, x, hlatest, rfl, rfl⟩
    exact ⟨hnode, hmerge, hlatest⟩
  · rintro ⟨hnode, hmerge, hlatest⟩
    exact ⟨s, ⟨hnode, hmerge⟩, e, hlatest, rfl, rfl⟩

/-- The bubbles are listed by the rank of their starts. -/
theorem pairwise_bubbles (h : d.dominatorTree entry allow = .ok t) :
    (d.bubbles t).Pairwise fun b b' => d.order.idxOf b.start < d.order.idxOf b'.start := by
  refine List.Pairwise.filterMap _ (fun u v hlt b hb b' hb' => ?_)
    ((d.pairwise_nodes_of_dominatorTree h).filter _)
  obtain ⟨e, -, rfl⟩ := Option.map_eq_some_iff.1 hb
  obtain ⟨e', -, rfl⟩ := Option.map_eq_some_iff.1 hb'
  exact hlt

/-- No two bubbles start at the same node. -/
theorem nodup_starts (h : d.dominatorTree entry allow = .ok t) :
    ((d.bubbles t).map Bubble.start).Nodup := by
  refine List.pairwise_map.2 ((d.pairwise_bubbles h).imp fun hlt heq => ?_)
  exact Nat.ne_of_lt hlt (congrArg d.order.idxOf heq)

/-- No two bubbles end at the same node, since a node has one immediate dominator. -/
theorem nodup_stops (h : d.dominatorTree entry allow = .ok t) :
    ((d.bubbles t).map Bubble.stop).Nodup := by
  have hparent : ∀ b ∈ d.bubbles t, t.immediateDominator b.stop = some b.start := fun b hb =>
    ((d.agreesWith_of_dominatorTree h).immediateDominator_iff _ _).2
      ((d.mem_bubbles_iff h).1 hb).2.2.1
  refine List.pairwise_map.2 ((d.pairwise_bubbles h).imp_of_mem fun {b b'} hb hb' hlt heq => ?_)
  have hstart := hparent b hb
  rw [heq, hparent b' hb', Option.some.injEq] at hstart
  exact Nat.ne_of_lt hlt (congrArg d.order.idxOf hstart.symm)

/-- The start of a bubble strictly dominates its end, which has a greater rank. -/
theorem strictlyDominates_of_mem_bubbles (h : d.dominatorTree entry allow = .ok t) {b : Bubble}
    (hb : b ∈ d.bubbles t) :
    t.strictlyDominates b.start b.stop = true ∧ d.order.idxOf b.start < d.order.idxOf b.stop := by
  obtain ⟨⟨hne, -⟩, -, hdom, -⟩ := (d.mem_bubbles_iff h).1 hb
  refine ⟨?_, d.idxOf_lt_of_immediatelyDominates h hne hdom⟩
  rw [DominatorTree.strictlyDominates, Bool.and_eq_true, bne_iff_ne]
  exact ⟨hdom.1, ((d.agreesWith_of_dominatorTree h).dominates_iff _ _).2 hdom.2.1⟩

end Dag

/-! ## The bubbles of an analysis -/

section

variable {κ σ : Type} [DecidableEq κ] [KeyText κ] {c : Config κ} {g : KeyedGraph κ}
  {r : Report κ}

/-- The stages of an analysis that succeeds. -/
theorem stages_of_analyze (h : (analyze c g).outcome = .ok r) :
    g.breakCycles c.passLimit = .ok r.dag ∧
      r.dag.dominatorTree c.entry c.allowUnreachable = .ok r.tree ∧
      r.bubbles = r.dag.bubbles r.tree := by
  unfold analyze at h
  split at h
  · cases h
  · rename_i d hd
    split at h
    · cases h
    · rename_i t ht
      obtain rfl := Except.ok.inj h
      exact ⟨hd, ht, rfl⟩

/-- Observers do not change the report. -/
theorem analyze_of_analyzeWith {observers : List (Observer κ σ)} {s : σ}
    (h : (analyzeWith c observers g s).1 = .ok r) : (analyze c g).outcome = .ok r := by
  unfold analyzeWith at h
  split at h
  · cases h
  · rename_i r' hr'
    split at h
    · obtain rfl := Except.ok.inj h
      exact hr'
    · cases h

/-- An analysis that succeeds makes the graph acyclic, builds the tree and lists its bubbles by the
rank of their starts. A bubble starts at a node that the root of the tree reaches, which is no
super-root and which at least two edges of the acyclic graph enter, and it ends at the node of the
greatest rank among those that the start immediately dominates on the paths from the root. So no two
bubbles share a start or an end, and the start of a bubble strictly dominates its end, which has a
greater rank. -/
theorem analyzeWith_bubbles {observers : List (Observer κ σ)} {s : σ}
    (h : (analyzeWith c observers g s).1 = .ok r) :
    let R := r.dag.Leads r.tree
    let rank := r.dag.order.idxOf
    (g.breakCycles c.passLimit = .ok r.dag ∧
        r.dag.dominatorTree c.entry c.allowUnreachable = .ok r.tree) ∧
      r.bubbles.Pairwise (fun b b' => rank b.start < rank b'.start) ∧
      (∀ s e, ⟨s, e⟩ ∈ r.bubbles ↔
        (r.tree.superRoot ≠ some s ∧ Relation.ReflTransGen R r.tree.root s) ∧
          2 ≤ r.dag.graph.edges.toList.countP (·.target == s) ∧
          ImmediatelyDominates R r.tree.root s e ∧
          ∀ x, ImmediatelyDominates R r.tree.root s x → x ≠ e → rank x < rank e) ∧
      (r.bubbles.map Bubble.start).Nodup ∧ (r.bubbles.map Bubble.stop).Nodup ∧
      ∀ b ∈ r.bubbles,
        r.tree.strictlyDominates b.start b.stop = true ∧ rank b.start < rank b.stop := by
  obtain ⟨hdag, htree, hbubbles⟩ := stages_of_analyze (analyze_of_analyzeWith h)
  rw [hbubbles]
  exact ⟨⟨hdag, htree⟩, r.dag.pairwise_bubbles htree, fun s e => r.dag.mem_bubbles_iff htree,
    r.dag.nodup_starts htree, r.dag.nodup_stops htree,
    fun b hb => r.dag.strictlyDominates_of_mem_bubbles htree hb⟩

end

/-- Two nodes that lead to each other, and one behind them. Turning the edge back leaves parallel
edges, which merge in the second node. -/
def KeyedGraph.backAndForth : KeyedGraph String where
  labels := #["a", "b", "c"]
  edges := #[⟨0, 1⟩, ⟨1, 0⟩, ⟨1, 2⟩]
  edges_lt := by decide
  nodup := by decide

theorem bubbles_backAndForth :
    ∃ r, (analyzeWith {} ([] : List (Observer String Unit)) KeyedGraph.backAndForth ()).1 = .ok r ∧
      r.bubbles = [⟨1, 2⟩] ∧ 2 ≤ r.dag.graph.edges.toList.countP (·.target == 1) ∧
      ImmediatelyDominates (r.dag.Leads r.tree) r.tree.root 1 2 := by
  have hread : (analyzeWith {} ([] : List (Observer String Unit))
      KeyedGraph.backAndForth ()).1.map Report.bubbles = .ok [⟨1, 2⟩] := by decide
  cases hr : (analyzeWith {} ([] : List (Observer String Unit)) KeyedGraph.backAndForth ()).1 with
  | error e => simp [hr, Except.map] at hread
  | ok r =>
    rw [hr, Except.map, Except.ok.injEq] at hread
    obtain ⟨-, -, hiff, -⟩ := analyzeWith_bubbles hr
    obtain ⟨-, hmerge, hdom, -⟩ := (hiff 1 2).1 (by simp [hread])
    exact ⟨r, rfl, hread, hmerge, hdom⟩

end FlowBubbles
