import FlowBubbles.CommandLine.Output

/-!
# Summaries of results

What the commands print about a graph whose keys are texts: a summary is a record of labels and
counts, and it can be written as JSON or as lines of text with tables.
-/

namespace FlowBubbles

open Text (Json Table)

/-! ## Labels -/

/-- The label of the super-root. -/
def superRootLabel : String := "<super-root>"

namespace Report

variable (r : Report String)

/-- The label of a node of the tree: its key, or that of the super-root. -/
def labelOf (v : Nat) : String :=
  if r.tree.isSuperRoot v then superRootLabel else (r.dag.graph.key? v).getD (nodeName v)

/-- The label of the root. A super-root that is not shown is replaced by the entries below it. -/
def rootLabel : String :=
  if r.hidesSuperRoot then " ".intercalate (r.tree.entries.map r.labelOf)
  else r.labelOf r.tree.root

end Report

namespace CommandLine

/-! ## Parts of a summary -/

/-- The lines on unreachable nodes, if there are any. -/
def unreachablePart (labels : List String) : List String :=
  if labels.isEmpty then [] else ["", fieldLine "Unreachable" (" ".intercalate labels)]

/-- A table of pairs of labels. -/
def pairTable (first second : String) (pairs : List (String × String)) : Table :=
  .ofHeaders [(first, .left), (second, .left)] (pairs.map fun (a, b) => [a, b])

/-- A list of labels as JSON. -/
def labelsJson (labels : List String) : Json := .list (labels.map .text)

/-- A list of edges as JSON. -/
def edgesJson (pairs : List (String × String)) : Json :=
  .list (pairs.map fun (s, t) => .record [("source", .text s), ("target", .text t)])

/-- The field on unreachable nodes, if there are any. -/
def unreachableField (labels : List String) : List (String × Json) :=
  if labels.isEmpty then [] else [("unreachable", labelsJson labels)]

/-! ## The summary of an analysis -/

/-- A node of a dominator tree: its label, that of its immediate dominator, and its depth. -/
structure TreeRow where
  node : String
  idom : Option String
  depth : Nat
deriving DecidableEq, Repr

/-- The summary of a whole analysis. -/
structure AnalysisSummary where
  nodeCount : Nat
  edgeCount : Nat
  passes : Nat
  reversed : List (String × String)
  order : List String
  root : String
  rows : List TreeRow
  unreachable : List String
  bubbles : List (Bubble × String × String)
deriving DecidableEq, Repr

namespace AnalysisSummary

/-- The row of a node of the tree. A super-root that is not shown is neither an immediate dominator
nor counted in depths. -/
def rowOf (r : Report String) (v : Nat) : TreeRow where
  node := r.labelOf v
  idom :=
    ((r.tree.immediateDominator v).filter fun p =>
      !(r.hidesSuperRoot && r.tree.isSuperRoot p)).map r.labelOf
  depth := (r.tree.depth v).getD 0 - if r.hidesSuperRoot then 1 else 0

/-- The summary of a report. -/
def ofReport (r : Report String) : AnalysisSummary where
  nodeCount := r.dag.graph.size
  edgeCount := r.dag.graph.edgeCount
  passes := r.dag.passes
  reversed := r.dag.reversedKeys
  order := r.dag.orderKeys
  root := r.rootLabel
  rows := r.tree.nodes.map (rowOf r)
  unreachable := r.unreachableKeys
  bubbles := r.bubbles.map fun b => (b, r.labelOf b.start, r.labelOf b.stop)

/-- A row of the tree as JSON. -/
def rowJson (row : TreeRow) : Json :=
  .record [("node", .text row.node), ("idom", (row.idom.map Json.text).getD .null),
    ("depth", .number row.depth)]

/-- A bubble as JSON. -/
def bubbleJson (b : Bubble × String × String) : Json :=
  .record [("start", .text b.2.1), ("end", .text b.2.2),
    ("ids", .record [("start", .number b.1.start), ("end", .number b.1.stop)])]

/-- The summary as JSON. -/
def json (s : AnalysisSummary) : Json :=
  .record <|
    [("node_count", .number s.nodeCount), ("edge_count", .number s.edgeCount),
      ("passes", .number s.passes), ("reversed_edges", edgesJson s.reversed),
      ("topological_order", labelsJson s.order), ("root", .text s.root),
      ("tree", .list (s.rows.map rowJson))] ++
    unreachableField s.unreachable ++ [("bubbles", .list (s.bubbles.map bubbleJson))]

/-- The table of the tree. -/
def treeTable (s : AnalysisSummary) : Table :=
  .ofHeaders [("Node", .left), ("Idom", .left), ("Depth", .right)]
    (s.rows.map fun row => [row.node, row.idom.getD "-", toString row.depth])

/-- The summary as lines of text. -/
def lines (f : Formats) (s : AnalysisSummary) : List String :=
  [fieldLine "Nodes" (toString s.nodeCount), fieldLine "Edges" (toString s.edgeCount),
    fieldLine "Passes" (toString s.passes), fieldLine "Root" s.root,
    fieldLine "Order" (" ".intercalate s.order)] ++
    tablePart f "Reversed edges" "(none)" (pairTable "Source" "Target" s.reversed) ++
    tablePart f "Dominator tree" "(empty)" s.treeTable ++ unreachablePart s.unreachable ++
    tablePart f "Bubbles" "(none)" (pairTable "Start" "End" (s.bubbles.map Prod.snd))

end AnalysisSummary

/-! ## The summary of an acyclic graph -/

/-- The summary of an acyclic graph. -/
structure AcyclicSummary where
  passes : Nat
  edges : List (String × String)
  reversed : List (String × String)
  order : List String
deriving DecidableEq, Repr

namespace AcyclicSummary

/-- The summary of an acyclic graph. -/
def ofDag (d : Dag String) : AcyclicSummary where
  passes := d.passes
  edges := d.graph.edgeKeys
  reversed := d.reversedKeys
  order := d.orderKeys

/-- The summary as JSON. -/
def json (s : AcyclicSummary) : Json :=
  .record [("passes", .number s.passes), ("edges", edgesJson s.edges),
    ("reversed_edges", edgesJson s.reversed), ("topological_order", labelsJson s.order)]

/-- The summary as lines of text. -/
def lines (f : Formats) (s : AcyclicSummary) : List String :=
  [fieldLine "Passes" (toString s.passes), fieldLine "Order" (" ".intercalate s.order)] ++
    tablePart f "Edges" "(none)" (pairTable "Source" "Target" s.edges) ++
    tablePart f "Reversed edges" "(none)" (pairTable "Source" "Target" s.reversed)

end AcyclicSummary

/-! ## The summary of a dominator tree -/

/-- The summary of a dominator tree. -/
structure TreeSummary where
  root : String
  superRoot : Bool
  entries : List String
  edges : List (String × String)
  unreachable : List String
deriving DecidableEq, Repr

namespace TreeSummary

/-- The summary of the dominator tree of a report. -/
def ofReport (r : Report String) : TreeSummary where
  root := r.rootLabel
  superRoot := r.tree.superRoot.isSome
  entries := r.tree.entries.map r.labelOf
  edges := r.treeEdges.map fun e => (r.labelOf e.source, r.labelOf e.target)
  unreachable := r.unreachableKeys

/-- The summary as JSON. -/
def json (s : TreeSummary) : Json :=
  .record <|
    [("root", .text s.root), ("super_root", .flag s.superRoot), ("entries", labelsJson s.entries),
      ("edges", edgesJson s.edges)] ++ unreachableField s.unreachable

/-- The summary as lines of text. -/
def lines (f : Formats) (s : TreeSummary) : List String :=
  [fieldLine "Root" s.root, fieldLine "Entries" (" ".intercalate s.entries)] ++
    tablePart f "Tree edges" "(none)" (pairTable "Idom" "Node" s.edges) ++
    unreachablePart s.unreachable

end TreeSummary

end CommandLine

end FlowBubbles
