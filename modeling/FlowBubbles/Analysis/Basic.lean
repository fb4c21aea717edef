import FlowBubbles.Bubble
import FlowBubbles.DominatorTree.Rooting
import FlowBubbles.Journal

/-!
# Analysing a graph

An analysis makes a graph acyclic, builds its dominator tree and finds its bubbles. `analyze` does
so for a configuration and tells what happened; the first stage that fails ends it.
-/

namespace FlowBubbles

/-- How a graph is to be analysed: the key of the root, whether nodes may be unreachable from it,
the limit on the passes that turn edges, and whether the edges of a super-root are part of the
result. -/
structure Config (κ : Type) where
  entry : Option κ := none
  allowUnreachable : Bool := false
  passLimit : Option Nat := none
  includeSuperRoot : Bool := false
deriving DecidableEq, Repr

/-- The configuration that leaves unreachable nodes out. -/
def Config.lenient {κ : Type} : Config κ := { allowUnreachable := true }

/-- The result of an analysis. -/
structure Report (κ : Type) where
  dag : Dag κ
  tree : DominatorTree
  bubbles : List Bubble
  includesSuperRoot : Bool

namespace Report

variable {κ : Type} (r : Report κ)

/-- The edges of the dominator tree, with those of the super-root if they were asked for. -/
def treeEdges : List Edge :=
  if r.includesSuperRoot then r.tree.edgesWithSuperRoot else r.tree.edges

/-- Whether there is a super-root that is not part of the result. -/
def hidesSuperRoot : Bool := r.tree.superRoot.isSome && !r.includesSuperRoot

/-- The edges of the dominator tree as pairs of keys, without those of the super-root. -/
def treeEdgeKeys : List (κ × κ) := r.dag.graph.keyPairsOf r.tree.edges

/-- The bubbles as pairs of keys. -/
def bubbleKeys : List (κ × κ) := r.dag.graph.keyPairsOf (r.bubbles.map Bubble.edge)

/-- The keys of the nodes outside the tree. -/
def unreachableKeys : List κ := r.dag.graph.keysOf r.tree.unreachable

end Report

variable {κ : Type} [DecidableEq κ] [KeyText κ]

/-- The outcome of an analysis and the notes on it. -/
structure Analysis (κ : Type) where
  notes : List Note
  outcome : Except Error (Report κ)

/-- Makes the graph acyclic, builds the dominator tree and finds the bubbles. -/
def analyze (c : Config κ) (g : KeyedGraph κ) : Analysis κ :=
  match g.breakCycles c.passLimit with
  | .error s => ⟨s.notes, .error s.error⟩
  | .ok d =>
    match d.dominatorTree c.entry c.allowUnreachable with
    | .error e => ⟨d.notes, .error e⟩
    | .ok t =>
      let bubbles := d.bubbles t
      { notes := d.notes ++ t.notes ++ [.finished d.reversed.length bubbles.length]
        outcome := .ok ⟨d, t, bubbles, c.includeSuperRoot⟩ }

end FlowBubbles
