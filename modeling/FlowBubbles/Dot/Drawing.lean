import FlowBubbles.Analysis.Basic
import FlowBubbles.Dot.Document

/-!
# Drawings of graphs and trees

The graph as given, the acyclic graph with its turned edges marked, and the dominator tree with its
bubbles marked.
-/

namespace FlowBubbles

open Dot

variable {κ : Type} [KeyText κ]

/-- The statement that draws a node of a graph under its key. -/
def KeyedGraph.nodeStatements (g : KeyedGraph κ) : List Statement :=
  g.keys.zipIdx.map fun (key, v) => .node (nodeName v) (KeyText.plain key) []

/-- The drawing of a graph. -/
def KeyedGraph.drawing (g : KeyedGraph κ) (title : String) : Document where
  name := "input"
  statements :=
    .title title :: g.nodeStatements ++
      g.edges.toList.map fun e => .edge (nodeName e.source) (nodeName e.target) []

/-- How a turned edge is drawn. -/
def turnedStyle : List Attribute :=
  [⟨"style", "dashed"⟩, ⟨"color", "red"⟩, ⟨"label", "reversed"⟩]

/-- The drawing of an acyclic graph. An edge is marked by its position, so that a parallel edge
that was there before stays plain. -/
def Dag.drawing (d : Dag κ) (title : String) : Document where
  name := "acyclic"
  statements :=
    .title title :: d.graph.nodeStatements ++
      d.graph.edges.toList.zipIdx.map fun (e, i) =>
        .edge (nodeName e.source) (nodeName e.target)
          (if d.turnedAt.contains i then turnedStyle else [])

namespace Report

variable (r : Report κ)

/-- The name of a node in the drawing of the tree. -/
def drawnName (v : Nat) : String := if r.tree.isSuperRoot v then "super_root" else nodeName v

/-- The statement that draws the super-root, if it is part of the result. -/
def superRootStatements : List Statement :=
  if r.includesSuperRoot && r.tree.superRoot.isSome then
    [.node "super_root" "super-root" [⟨"shape", "point"⟩]]
  else []

/-- The statement that draws a node of the tree. The start of a bubble has a double circle. -/
def nodeStatement (v : Nat) : Statement :=
  .node (nodeName v) (((r.dag.graph.key? v).map KeyText.plain).getD "")
    (if r.bubbles.any (·.start == v) then [⟨"shape", "doublecircle"⟩] else [])

/-- The statement that draws an edge of the tree. The edge from the start of a bubble to its end is
marked. -/
def edgeStatement (e : Edge) : Statement :=
  .edge (r.drawnName e.source) (nodeName e.target)
    (if r.bubbles.any (·.edge == e) then [⟨"color", "blue"⟩, ⟨"penwidth", "2"⟩] else [])

/-- The drawing of the dominator tree. -/
def drawing (title : String) : Document where
  name := "domtree"
  statements :=
    .title title :: r.superRootStatements ++ r.tree.nodes.map r.nodeStatement ++
      r.treeEdges.map r.edgeStatement

end Report

end FlowBubbles
