import FlowBubbles.CommandLine.Respond
import FlowBubbles.Proofs.CommandLine.Summary
import FlowBubbles.Proofs.KeyedGraph.Views

/-!
# The rows of a tree

The rows of an analysis describe the dominator tree without a super-root, which is a forest
(`CommandLine.IsForest`). A node that only the super-root dominates has no immediate dominator in its
row. Depths are counted from such nodes on: all of them are one less than in the tree if there is a
super-root (`CommandLine.AnalysisSummary.depth_rowOf`). The edges from immediate dominators to nodes
are those that the command for the dominator tree shows, since without a limit on the passes and
without the super-root it asks for the same analysis.
-/

namespace FlowBubbles

variable {r : Report String} {u v p : Nat}

/-! ## Labels -/

namespace Report

/-- The label of a node of the tree is its key. -/
theorem key?_eq_some_labelOf (h : r.tree.Consistent r.dag.graph.size) (hv : v ∈ r.tree.nodes) :
    r.dag.graph.key? v = some (r.labelOf v) := by
  obtain ⟨k, hk⟩ := KeyedGraph.exists_key? (h.mem_nodes_iff.1 hv).2
  rw [labelOf, DominatorTree.isSuperRoot_of_mem_nodes hv, hk]
  rfl

/-- Different nodes of the tree have different labels. -/
theorem labelOf_inj (h : r.tree.Consistent r.dag.graph.size) (hu : u ∈ r.tree.nodes)
    (hv : v ∈ r.tree.nodes) : r.labelOf u = r.labelOf v ↔ u = v := by
  refine ⟨fun heq => ?_, congrArg r.labelOf⟩
  have hnode := KeyedGraph.node?_eq_some_iff.2 (key?_eq_some_labelOf h hu)
  rw [heq, KeyedGraph.node?_eq_some_iff.2 (key?_eq_some_labelOf h hv)] at hnode
  exact (Option.some.inj hnode).symm

theorem map_labelOf_nodes (h : r.tree.Consistent r.dag.graph.size) :
    r.tree.nodes.map r.labelOf = r.dag.graph.keysOf r.tree.nodes := by
  rw [KeyedGraph.keysOf, List.filterMap_congr fun v hv => key?_eq_some_labelOf h hv,
    List.filterMap_eq_map']

end Report

namespace CommandLine

/-! ## Forests -/

/-- Whether rows describe a forest: no node has two rows, the nodes without an immediate dominator
are those of depth zero, and in front of a row with an immediate dominator stands one row of that
node, whose depth is one less. -/
structure IsForest (rows : List TreeRow) : Prop where
  nodup : (rows.map TreeRow.node).Nodup
  idom_eq_none_iff : ∀ row ∈ rows, row.idom = none ↔ row.depth = 0
  parent : ∀ before row after p, rows = before ++ row :: after → row.idom = some p →
    ∃ parent, before.filter (·.node == p) = [parent] ∧ parent.depth + 1 = row.depth

namespace AnalysisSummary

/-- The depth in the tree of the nodes on top of the forest. -/
def topDepth (r : Report String) : Nat := if r.hidesSuperRoot then 1 else 0

section

variable (hhidden : r.includesSuperRoot = false)
include hhidden

theorem hidesSuperRoot_of_superRoot (hsuper : r.tree.superRoot = some p) :
    r.hidesSuperRoot = true := by
  rw [Report.hidesSuperRoot, hhidden, hsuper]
  rfl

/-- An immediate dominator is left out of its row if it is the super-root. -/
theorem idom_rowOf (v : Nat) : (rowOf r v).idom =
    ((r.tree.immediateDominator v).filter (!r.tree.isSuperRoot ·)).map r.labelOf := by
  have hleft : ∀ p, (!(r.hidesSuperRoot && r.tree.isSuperRoot p)) = !r.tree.isSuperRoot p := by
    intro p
    cases hsuper : r.tree.isSuperRoot p with
    | false => rw [Bool.and_false]
    | true => rw [hidesSuperRoot_of_superRoot hhidden (beq_iff_eq.1 hsuper), Bool.and_self]
  rw [rowOf]
  simp only [hleft]

theorem idom_rowOf_eq_some_iff {k : String} : (rowOf r v).idom = some k ↔
    ∃ p, r.tree.immediateDominator v = some p ∧ r.tree.superRoot ≠ some p ∧ r.labelOf p = k := by
  rw [idom_rowOf hhidden, Option.map_eq_some_iff]
  simp only [Option.filter_eq_some_iff, Bool.not_eq_true', DominatorTree.isSuperRoot_eq_false_iff,
    and_assoc]

variable (h : r.tree.Consistent r.dag.graph.size)
include h

/-- Rows count depths from the top of the forest on. -/
theorem depth_rowOf (hv : v ∈ r.tree.nodes) :
    r.tree.depth v = some ((rowOf r v).depth + topDepth r) := by
  have hcontains := (h.mem_nodes_iff.1 hv).1
  obtain ⟨k, hk⟩ := Option.isSome_iff_exists.1 (h.depth v hcontains).1
  have htop : topDepth r ≤ k := by
    cases hsuper : r.tree.superRoot with
    | none =>
      have hshown : r.hidesSuperRoot = false := by rw [Report.hidesSuperRoot, hsuper]; rfl
      rw [topDepth, hshown]
      exact Nat.zero_le k
    | some s =>
      -- the node is below the super-root
      have hroot : v ≠ r.tree.root := by
        intro hroot
        have hnode := DominatorTree.isSuperRoot_of_mem_nodes hv
        rw [DominatorTree.isSuperRoot_eq_false_iff, hroot, (h.of_superRoot hsuper).1] at hnode
        exact hnode hsuper
      obtain ⟨p, hp⟩ := DominatorTree.exists_immediateDominator hcontains hroot
      obtain ⟨j, -, hj⟩ := h.exists_depth hp
      obtain rfl : j + 1 = k := Option.some.inj (hj.symm.trans hk)
      rw [topDepth, hidesSuperRoot_of_superRoot hhidden hsuper]
      exact Nat.succ_le_succ (Nat.zero_le j)
  rw [hk, rowOf, hk]
  exact congrArg some (Nat.sub_add_cancel htop).symm

/-- A row is one deeper than that of the immediate dominator. -/
theorem depth_rowOf_parent (hp : r.tree.immediateDominator v = some p)
    (hsuper : r.tree.superRoot ≠ some p) : (rowOf r p).depth + 1 = (rowOf r v).depth := by
  obtain ⟨k, hpk, hvk⟩ := h.exists_depth hp
  rw [depth_rowOf hhidden h (h.parent_mem_nodes hp hsuper), Option.some.injEq] at hpk
  rw [depth_rowOf hhidden h (h.mem_nodes_of_immediateDominator hp), Option.some.injEq] at hvk
  omega

/-- The nodes without an immediate dominator in their rows are the top of the forest. -/
theorem idom_rowOf_eq_none_iff (hv : v ∈ r.tree.nodes) :
    (rowOf r v).idom = none ↔ (rowOf r v).depth = 0 := by
  have hcontains := (h.mem_nodes_iff.1 hv).1
  have hdepth := depth_rowOf hhidden h hv
  by_cases hroot : v = r.tree.root
  · -- the root has no immediate dominator
    have hnone : r.tree.immediateDominator v = none := if_pos hroot
    rw [hroot, h.depth_root, Option.some.injEq] at hdepth
    rw [idom_rowOf hhidden, hnone, hroot]
    exact iff_of_true rfl (by omega)
  · obtain ⟨p, hp⟩ := DominatorTree.exists_immediateDominator hcontains hroot
    by_cases hsuper : r.tree.superRoot = some p
    · -- only the super-root dominates the node
      have hnone : (rowOf r v).idom = none := by
        refine Option.eq_none_iff_forall_ne_some.2 fun k hk => ?_
        obtain ⟨p', hp', hshown, -⟩ := (idom_rowOf_eq_some_iff hhidden).1 hk
        obtain rfl : p = p' := Option.some.inj (hp.symm.trans hp')
        exact hshown hsuper
      have htop : topDepth r = 1 := by
        rw [topDepth, hidesSuperRoot_of_superRoot hhidden hsuper]
        rfl
      obtain ⟨k, hk, hvk⟩ := h.exists_depth hp
      rw [← (h.of_superRoot hsuper).1, h.depth_root, Option.some.injEq] at hk
      rw [hdepth, Option.some.injEq] at hvk
      exact iff_of_true hnone (by omega)
    · have hidom := (idom_rowOf_eq_some_iff hhidden).2 ⟨p, hp, hsuper, rfl⟩
      have hbelow := depth_rowOf_parent hhidden h hp hsuper
      rw [hidom]
      exact iff_of_false (Option.some_ne_none _) (by omega)

end

/-! ## The rows of a report -/

/-- What has a smaller rank than an entry of a list that is sorted by rank stands in front of it. -/
theorem mem_of_pairwise_lt {α : Type} {rank : α → Nat} {before after : List α} {a b : α}
    (hsorted : (before ++ a :: after).Pairwise (rank · < rank ·)) (hb : b ∈ before ++ a :: after)
    (hlt : rank b < rank a) : b ∈ before := by
  rcases List.mem_append.1 hb with hb | hb
  · exact hb
  · obtain ⟨-, hrest, -⟩ := List.pairwise_append.1 hsorted
    rcases List.mem_cons.1 hb with rfl | hb
    · exact absurd hlt (Nat.lt_irrefl _)
    · exact absurd hlt (Nat.lt_asymm ((List.pairwise_cons.1 hrest).1 b hb))

/-- Among the rows of different nodes of the tree, one has the label of a listed node. -/
theorem filter_rows_eq_singleton {vs : List Nat} (h : r.tree.Consistent r.dag.graph.size)
    (hvs : ∀ u ∈ vs, u ∈ r.tree.nodes) (hnodup : vs.Nodup) (hp : p ∈ vs) :
    (vs.map (rowOf r)).filter (·.node == r.labelOf p) = [rowOf r p] := by
  have hlabel : ∀ u ∈ vs, ((rowOf r u).node == r.labelOf p) = (u == p) := fun u hu => by
    rw [Bool.eq_iff_iff, beq_iff_eq, beq_iff_eq]
    exact Report.labelOf_inj h (hvs u hu) (hvs p hp)
  calc (vs.map (rowOf r)).filter (·.node == r.labelOf p)
      = (vs.filter (fun u => (rowOf r u).node == r.labelOf p)).map (rowOf r) := List.filter_map
    _ = (vs.filter (· == p)).map (rowOf r) := by rw [List.filter_congr hlabel]
    _ = [rowOf r p] := by rw [List.filter_beq, List.count_eq_one_of_mem hnodup hp]; rfl

variable {entry : Option String} {allow : Bool}

/-- The rows of a report that does not show a super-root describe a forest. -/
theorem isForest_rows (hhidden : r.includesSuperRoot = false)
    (htree : r.dag.dominatorTree entry allow = .ok r.tree) : IsForest (ofReport r).rows := by
  have h := r.dag.consistent_of_dominatorTree htree
  have hnodup : r.tree.nodes.Nodup := h.nodup_order.filter _
  constructor
  case nodup =>
    have hnodes : (ofReport r).rows.map TreeRow.node = r.tree.nodes.map r.labelOf := List.map_map
    rw [hnodes]
    exact hnodup.map_on fun u hu v hv => (Report.labelOf_inj h hu hv).1
  case idom_eq_none_iff =>
    intro row hrow
    obtain ⟨v, hv, rfl⟩ := List.mem_map.1 hrow
    exact idom_rowOf_eq_none_iff hhidden h hv
  case parent =>
    intro before row after k hsplit hidom
    obtain ⟨vs, rest, hnodes, rfl, hrest⟩ := List.map_eq_append_iff.1 hsplit
    obtain ⟨v, ws, rfl, rfl, -⟩ := List.map_eq_cons_iff.1 hrest
    obtain ⟨p, hp, hsuper, rfl⟩ := (idom_rowOf_eq_some_iff hhidden).1 hidom
    have hnode := h.parent_mem_nodes hp hsuper
    have hlt := r.dag.idxOf_lt_of_immediatelyDominates htree hsuper
      (((r.dag.agreesWith_of_dominatorTree htree).immediateDominator_iff p v).1 hp)
    have hsorted := r.dag.pairwise_nodes_of_dominatorTree htree
    have hbefore : p ∈ vs := by
      rw [hnodes] at hnode hsorted
      exact mem_of_pairwise_lt hsorted hnode hlt
    have hsub : vs.Sublist r.tree.nodes := hnodes ▸ List.sublist_append_left vs _
    exact ⟨rowOf r p,
      filter_rows_eq_singleton h (fun u hu => hsub.subset hu) (hsub.nodup hnodup) hbefore,
      depth_rowOf_parent hhidden h hp hsuper⟩

/-- The pairs of the rows are the edges of the tree, by the labels of their ends. -/
theorem filterMap_idom_rows (hhidden : r.includesSuperRoot = false)
    (h : r.tree.Consistent r.dag.graph.size) :
    (ofReport r).rows.filterMap (fun row => row.idom.map (·, row.node)) =
      (TreeSummary.ofReport r).edges := by
  have hedges : r.treeEdges = r.tree.edges := by rw [Report.treeEdges, hhidden]; rfl
  have hrow : ∀ v, (rowOf r v).idom.map (·, (rowOf r v).node) =
      (((r.tree.immediateDominator v).filter (!r.tree.isSuperRoot ·)).map
        (Edge.mk · v)).map fun e => (r.labelOf e.source, r.labelOf e.target) := by
    intro v
    rw [idom_rowOf hhidden, Option.map_map, Option.map_map]
    rfl
  calc (ofReport r).rows.filterMap (fun row => row.idom.map (·, row.node))
      = r.tree.nodes.filterMap fun v => (rowOf r v).idom.map (·, (rowOf r v).node) :=
        List.filterMap_map
    _ = r.tree.edges.map fun e => (r.labelOf e.source, r.labelOf e.target) := by
        rw [h.edges_eq_nodes, List.map_filterMap, funext hrow]
    _ = (TreeSummary.ofReport r).edges := by rw [← hedges]; rfl

end AnalysisSummary

/-! ## Requests that succeed -/

variable {f : Formats} {q : Request} {c : Config String} {contents : Except ReadFailure String}
  {text out context : String} {g : KeyedGraph String} {view : Report String → String}

theorem output_resultOfAnalysis_iff : (resultOfAnalysis c g context view).output = .ok out ↔
    ∃ r, (analyze c g).outcome = .ok r ∧ view r = out := by
  rw [resultOfAnalysis]
  cases (analyze c g).outcome <;> simp [failure]

theorem Command.graph_ok_iff {command : Command} :
    command.graph (.ok text) = .ok g ↔ EdgeList.parse text = .ok g := by
  rw [graph]
  cases EdgeList.parse text <;> simp

namespace Request

/-- A request succeeds with an output if its command has this output for the graph of the file. -/
theorem respond_eq_iff : (q.respond f contents).exit = 0 ∧ (q.respond f contents).stdout = out ↔
    ∃ g, q.command.graph contents = .ok g ∧ (q.command.result f q.options g).output = .ok out := by
  rw [respond]
  cases q.command.graph contents with
  | error e => simp
  | ok g => cases hout : (q.command.result f q.options g).output <;> simp [hout]

/-- An analysis that succeeds, in whichever form and formats, shows rows that describe a forest: one
row for each node of the tree, by rank, in which exactly the nodes without an immediate dominator have
depth zero, and any other row is one deeper than the only row of its immediate dominator, which stands
in front of it. If the passes are not limited, the request for the dominator tree of the same text
from the same entry and without the super-root succeeds as well, and the edges that it shows are the
pairs of these rows. -/
theorem analysis_rows_forest (f : Formats) (o : GlobalOptions) (file : String)
    (entry : Option String) (allowUnreachable : Bool) (maxPasses : Option Nat) (text : String) :
    let answer := respond f ⟨.analyze file entry allowUnreachable maxPasses, o⟩ (.ok text)
    answer.exit = 0 → ∃ g r, EdgeList.parse text = .ok g ∧
      (analyze { entry, allowUnreachable, passLimit := maxPasses } g).outcome = .ok r ∧
      let rows := (AnalysisSummary.ofReport r).rows
      ShowsRows f o rows answer.stdout ∧
      OneForOne r.dag.graph.key? r.dag.graph.node? r.tree.nodes (rows.map TreeRow.node) ∧
      r.tree.nodes.Pairwise (fun u v => r.dag.order.idxOf u < r.dag.order.idxOf v) ∧
      IsForest rows ∧
      (maxPasses = none → ∀ f' o' file',
        let answer' := respond f' ⟨.domtree file' entry allowUnreachable false, o'⟩ (.ok text)
        answer'.exit = 0 ∧
          ShowsEdges f' o' (rows.filterMap fun row => row.idom.map (·, row.node))
            answer'.stdout) := by
  intro answer hexit
  obtain ⟨g, hgraph, hout⟩ := respond_eq_iff.1 ⟨hexit, rfl⟩
  have hg := Command.graph_ok_iff.1 hgraph
  obtain ⟨r, hr, hshown⟩ := output_resultOfAnalysis_iff.1 hout
  obtain ⟨-, htree, -⟩ := stages_of_analyze hr
  have hhidden : r.includesSuperRoot = false := includesSuperRoot_of_analyze hr
  have hconsistent := r.dag.consistent_of_dominatorTree htree
  have hnodes : (AnalysisSummary.ofReport r).rows.map TreeRow.node =
      r.dag.graph.keysOf r.tree.nodes :=
    List.map_map.trans (Report.map_labelOf_nodes hconsistent)
  refine ⟨g, r, hg, hr, ?_, ?_, r.dag.pairwise_nodes_of_dominatorTree htree,
    AnalysisSummary.isForest_rows hhidden htree, ?_⟩
  · rw [← hshown]
    exact showsRows_of_analyze hg hr
  · rw [hnodes]
    exact KeyedGraph.oneForOne_keysOf fun v hv => (hconsistent.mem_nodes_iff.1 hv).2
  · rintro rfl f' o' file'
    let q : Request := ⟨.domtree file' entry allowUnreachable false, o'⟩
    have hgraph' : q.command.graph (.ok text) = .ok g := Command.graph_ok_iff.2 hg
    -- both commands ask for the same analysis
    have hout' : (q.command.result f' q.options g).output = .ok _ :=
      output_resultOfAnalysis_iff.2 ⟨r, hr, rfl⟩
    obtain ⟨hexit', hshown'⟩ := respond_eq_iff.2 ⟨g, hgraph', hout'⟩
    refine ⟨hexit', ?_⟩
    rw [hshown', AnalysisSummary.filterMap_idom_rows hhidden hconsistent]
    exact showsEdges_of_analyze hg hr

theorem analysis_rows_two_entries :
    let answer := respond .plain ⟨.analyze "g" none false none, {}⟩ (.ok "a c\nb c\nc d\n")
    let answer' :=
      respond .plain ⟨.domtree "g" none false false, { json := true }⟩ (.ok "a c\nb c\nc d\n")
    let rows : List TreeRow := [⟨"a", none, 0⟩, ⟨"b", none, 0⟩, ⟨"c", none, 0⟩, ⟨"d", some "c", 1⟩]
    answer.exit = 0 ∧ ShowsRows .plain {} rows answer.stdout ∧ IsForest rows ∧ answer'.exit = 0 ∧
      ShowsEdges .plain { json := true } [("c", "d")] answer'.stdout := by
  intro answer answer' rows
  have hexit : answer.exit = 0 := by decide +kernel
  have hread : ((EdgeList.parse "a c\nb c\nc d\n").toOption.bind fun g =>
      (analyze {} g).outcome.toOption.map fun r => (AnalysisSummary.ofReport r).rows) =
      some rows := by
    decide +kernel
  obtain ⟨g, r, hg, hr, hshown, -, -, hforest, hsame⟩ :=
    analysis_rows_forest .plain {} "g" none false none _ hexit
  rw [hg, Except.toOption, Option.bind_some, hr, Except.toOption, Option.map_some,
    Option.some.injEq] at hread
  obtain ⟨hexit', hshown'⟩ := hsame rfl .plain { json := true } "g"
  rw [hread] at hshown hforest hshown'
  exact ⟨hexit, hshown, hforest, hexit', hshown'⟩

end Request

end CommandLine

end FlowBubbles
