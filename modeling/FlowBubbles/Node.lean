/-!
# Nodes and edges

A node is named by its index, a natural number counted from zero in order of insertion. An edge is
an ordered pair of nodes.
-/

namespace FlowBubbles

/-- The short name of a node in messages and drawings. -/
def nodeName (v : Nat) : String := "n" ++ toString v

/-- The structural text of a node. -/
def nodeInspect (v : Nat) : String := "NodeId(" ++ toString v ++ ")"

/-- The short name of an edge, named by its position among the edges. -/
def edgeName (i : Nat) : String := "e" ++ toString i

/-- The structural text of an edge. -/
def edgeInspect (i : Nat) : String := "EdgeId(" ++ toString i ++ ")"

/-- A directed edge between two nodes. -/
structure Edge where
  source : Nat
  target : Nat
deriving DecidableEq, Repr, Inhabited

/-- The edge that runs the other way. -/
def Edge.flip (e : Edge) : Edge := ⟨e.target, e.source⟩

@[simp] theorem Edge.flip_flip (e : Edge) : e.flip.flip = e := rfl

@[simp] theorem Edge.source_flip (e : Edge) : e.flip.source = e.target := rfl

@[simp] theorem Edge.target_flip (e : Edge) : e.flip.target = e.source := rfl

end FlowBubbles
