import FlowBubbles.NodeMap

/-!
# Dominator trees

A dominator tree holds the nodes that its root reaches. The parent of a node other than the root is
its immediate dominator, the last of the other nodes that lie on every path from the root to it.
The tree lists its nodes by rank, the root first. Its root may be a super-root, a node that is not
part of the graph and stands in front of the graph's entries.
-/

namespace FlowBubbles

/-- A dominator tree. The root is its own parent; a node without a parent is outside the tree. -/
structure DominatorTree where
  root : Nat
  superRoot : Option Nat
  joined : List Nat
  parent : NodeMap (Option Nat)
  order : List Nat
  unreachable : List Nat

namespace DominatorTree

variable (t : DominatorTree)

/-! ## Nodes and their dominators -/

/-- Whether `v` is the super-root of the tree. -/
def isSuperRoot (v : Nat) : Bool := t.superRoot == some v

/-- The entries below the super-root, or the root alone if there is no super-root. -/
def entries : List Nat := if t.superRoot.isSome then t.joined else [t.root]

/-- Whether `v` is in the tree. -/
def contains (v : Nat) : Bool := (t.parent.get v).isSome

/-- The immediate dominator of a node. The root has none. -/
def immediateDominator (v : Nat) : Option Nat := if v = t.root then none else t.parent.get v

/-- The first `n` nodes on the way from a node up to the root. -/
def climb : Nat → Nat → List Nat
  | 0, _ => []
  | n + 1, v =>
    v :: match t.immediateDominator v with
      | none => []
      | some p => climb n p

/-- The dominators of a node, from the node itself up to the root. -/
def dominators (v : Nat) : List Nat := if t.contains v then t.climb t.order.length v else []

/-- Whether `u` dominates `v`. A node dominates itself; a node outside the tree neither dominates
nor is dominated. -/
def dominates (u v : Nat) : Bool := t.contains u && t.contains v && (t.dominators v).contains u

/-- Whether `u` dominates `v` and is another node. -/
def strictlyDominates (u v : Nat) : Bool := u != v && t.dominates u v

/-- The distance of a node from the root. -/
def depth (v : Nat) : Option Nat :=
  if t.contains v then some ((t.dominators v).length - 1) else none

/-! ## The tree as a whole -/

/-- The nodes whose immediate dominator is `v`, by rank. -/
def children (v : Nat) : List Nat := t.order.filter fun w => t.immediateDominator w == some v

/-- The nodes by rank, without the super-root. -/
def nodes : List Nat := t.order.filter (!t.isSuperRoot ·)

/-- The edges from immediate dominators to nodes, by the rank of the node. -/
def edgesWithSuperRoot : List Edge :=
  t.order.filterMap fun v => (t.immediateDominator v).map (⟨·, v⟩)

/-- The edges of the tree without those of the super-root. -/
def edges : List Edge := t.edgesWithSuperRoot.filter (!t.isSuperRoot ·.source)

/-- The number of nodes without the super-root. -/
def size : Nat := t.order.length - if t.superRoot.isSome then 1 else 0

/-- Whether the tree has no nodes besides a super-root. -/
def isEmpty : Bool := t.size == 0

end DominatorTree

end FlowBubbles
