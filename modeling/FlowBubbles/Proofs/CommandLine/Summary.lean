import FlowBubbles.CommandLine.Summary
import FlowBubbles.Proofs.CommandLine.Output
import FlowBubbles.Proofs.Bubble
import FlowBubbles.Proofs.Dag.Turned
import FlowBubbles.Proofs.EdgeList.Variants

/-!
# What summaries show

The summary of an analysis shows its rows and the summary of a dominator tree shows its edges, in
either form and for all formats (`AnalysisSummary.showsRows_form`, `TreeSummary.showsEdges_form`). For
the text, this rests on the words of an edge list: they have no ends of lines in them, so no label
looks like a title.
-/

namespace FlowBubbles

namespace CommandLine

open Text (Json Table unlines)

variable {f : Formats} {o : GlobalOptions}

/-- Whether an output shows rows of a tree: as the items of the field `tree`, or as the rows of a table
under the title `Dominator tree`. -/
def ShowsRows (f : Formats) (o : GlobalOptions) (rows : List TreeRow) (out : String) : Prop :=
  if o.json then
    ShowsField f "tree" (.list (rows.map fun row =>
      .record [("node", .text row.node),
        ("idom", match row.idom with
          | none => .null
          | some p => .text p),
        ("depth", .number row.depth)])) out
  else
    ShowsTable f "Dominator tree" "(empty)"
      { columns := [⟨"Node", .left, 0, 1⟩, ⟨"Idom", .left, 1, 1⟩, ⟨"Depth", .right, 1, 0⟩]
        rows := rows.map fun row => [row.node, row.idom.getD "-", toString row.depth] } out

/-- Whether an output shows pairs of an immediate dominator and its node: as the items of the field
`edges`, or as the rows of a table under the title `Tree edges`. -/
def ShowsEdges (f : Formats) (o : GlobalOptions) (pairs : List (String × String)) (out : String) :
    Prop :=
  if o.json then
    ShowsField f "edges" (.list (pairs.map fun (p, k) =>
      .record [("source", .text p), ("target", .text k)])) out
  else
    ShowsTable f "Tree edges" "(none)"
      { columns := [⟨"Idom", .left, 0, 1⟩, ⟨"Node", .left, 1, 0⟩]
        rows := pairs.map fun (p, k) => [p, k] } out

/-! ## Parts of a summary -/

theorem startsEmpty_unreachablePart (labels : List String) :
    StartsEmpty (unreachablePart labels) := by
  intro l h
  rw [unreachablePart] at h
  split at h
  · cases h
  · exact (Option.some.inj h).symm

theorem filter_unreachableField {name : String} (h : name ≠ "unreachable") (labels : List String) :
    (unreachableField labels).filter (·.1 == name) = [] := by
  rw [unreachableField]
  split
  · rfl
  · exact List.filter_cons_of_neg (by simpa using h.symm)

/-! ## Summaries -/

namespace AnalysisSummary

theorem rowJson_eq (row : TreeRow) :
    rowJson row = .record [("node", .text row.node),
      ("idom", match row.idom with
        | none => .null
        | some p => .text p),
      ("depth", .number row.depth)] := by
  rw [rowJson]
  cases row.idom <;> rfl

/-- An analysis shows its rows. -/
theorem showsRows_form (s : AnalysisSummary) (hroot : OneLine s.root)
    (horder : ∀ k ∈ s.order, OneLine k) : ShowsRows f o s.rows (o.form f s.json (s.lines f)) := by
  rw [ShowsRows, GlobalOptions.form]
  split
  · refine ⟨_, rfl, ?_⟩
    rw [List.filter_append, List.filter_append, filter_unreachableField (by decide),
      ← funext rowJson_eq]
    rfl
  · have htitle : IsTitle "Dominator tree" := ⟨by decide, by decide, by decide⟩
    have hfields : Precede [fieldLine "Nodes" (toString s.nodeCount),
        fieldLine "Edges" (toString s.edgeCount), fieldLine "Passes" (toString s.passes),
        fieldLine "Root" s.root, fieldLine "Order" (" ".intercalate s.order)] "Dominator tree" :=
      precede_fieldLine (by decide) (oneLine_toString _) <|
        precede_fieldLine (by decide) (oneLine_toString _) <|
        precede_fieldLine (by decide) (oneLine_toString _) <|
        precede_fieldLine (by decide) hroot <|
        precede_fieldLine (by decide) (oneLine_intercalate horder) (List.forall_mem_nil _)
    have hreversed : Precede (tablePart f "Reversed edges" "(none)"
        (pairTable "Source" "Target" s.reversed)) "Dominator tree" :=
      precede_tablePart htitle (by decide) (by decide)
    -- the fields and the reversed edges stand in front of the tree, all else behind it
    have hlines : s.lines f = _ ++ tablePart f "Dominator tree" "(empty)" s.treeTable ++
        (unreachablePart s.unreachable ++ _) := List.append_assoc ..
    rw [hlines]
    exact showsTable_unlines htitle (by decide) (hfields.append hreversed)
      ((startsEmpty_unreachablePart _).append startsEmpty_tablePart)

end AnalysisSummary

/-- A dominator tree shows its edges. -/
theorem TreeSummary.showsEdges_form (s : TreeSummary) (hroot : OneLine s.root)
    (hentries : ∀ k ∈ s.entries, OneLine k) :
    ShowsEdges f o s.edges (o.form f s.json (s.lines f)) := by
  rw [ShowsEdges, GlobalOptions.form]
  split
  · refine ⟨_, rfl, ?_⟩
    rw [List.filter_append, filter_unreachableField (by decide)]
    rfl
  · have htitle : IsTitle "Tree edges" := ⟨by decide, by decide, by decide⟩
    have hfields : Precede [fieldLine "Root" s.root,
        fieldLine "Entries" (" ".intercalate s.entries)] "Tree edges" :=
      precede_fieldLine (by decide) hroot <|
        precede_fieldLine (by decide) (oneLine_intercalate hentries) (List.forall_mem_nil _)
    exact showsTable_unlines htitle (by decide) hfields (startsEmpty_unreachablePart _)

/-! ## Labels -/

section

variable {r : Report String} {g : KeyedGraph String} {c : Config String} {text : String}

theorem oneLine_of_key? {v : Nat} {k : String} (hkeys : ∀ k ∈ g.keys, OneLine k)
    (h : g.key? v = some k) : OneLine k := by
  rw [KeyedGraph.key?_eq_getElem?] at h
  exact hkeys k (List.mem_of_getElem? h)

theorem oneLine_of_mem_keysOf (hkeys : ∀ k ∈ g.keys, OneLine k) (vs : List Nat) :
    ∀ k ∈ g.keysOf vs, OneLine k := by
  intro k hk
  obtain ⟨v, -, hv⟩ := List.mem_filterMap.1 hk
  exact oneLine_of_key? hkeys hv

theorem oneLine_labelOf (hkeys : ∀ k ∈ r.dag.graph.keys, OneLine k) (v : Nat) :
    OneLine (r.labelOf v) := by
  rw [Report.labelOf]
  split
  · decide
  · cases hk : r.dag.graph.key? v with
    | none => exact oneLine_nodeName v
    | some k => exact oneLine_of_key? hkeys hk

theorem oneLine_rootLabel (hkeys : ∀ k ∈ r.dag.graph.keys, OneLine k) : OneLine r.rootLabel := by
  rw [Report.rootLabel]
  split
  · exact oneLine_intercalate (List.forall_mem_map.2 fun v _ => oneLine_labelOf hkeys v)
  · exact oneLine_labelOf hkeys _

/-- The keys of a report on an edge list are words of the edge list. -/
theorem oneLine_of_mem_keys (hg : EdgeList.parse text = .ok g)
    (hr : (analyze c g).outcome = .ok r) : ∀ k ∈ r.dag.graph.keys, OneLine k := by
  intro k hk hnewline
  rw [KeyedGraph.keys, KeyedGraph.labels_of_breakCycles (stages_of_analyze hr).1] at hk
  exact absurd (EdgeList.isBlank_eq_false_of_parse hg hk _ hnewline) (by decide)

/-- The analysis of an edge list shows its rows. -/
theorem showsRows_of_analyze (hg : EdgeList.parse text = .ok g)
    (hr : (analyze c g).outcome = .ok r) :
    let s := AnalysisSummary.ofReport r
    ShowsRows f o s.rows (o.form f s.json (s.lines f)) := by
  have hkeys := oneLine_of_mem_keys hg hr
  exact AnalysisSummary.showsRows_form _ (oneLine_rootLabel hkeys)
    (oneLine_of_mem_keysOf hkeys r.dag.order)

/-- The dominator tree of an edge list shows its edges. -/
theorem showsEdges_of_analyze (hg : EdgeList.parse text = .ok g)
    (hr : (analyze c g).outcome = .ok r) :
    let s := TreeSummary.ofReport r
    ShowsEdges f o s.edges (o.form f s.json (s.lines f)) := by
  have hkeys := oneLine_of_mem_keys hg hr
  exact TreeSummary.showsEdges_form _ (oneLine_rootLabel hkeys)
    (List.forall_mem_map.2 fun v _ => oneLine_labelOf hkeys v)

end

end CommandLine

end FlowBubbles
