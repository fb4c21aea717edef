import FlowBubbles.Digraph.DepthFirst

/-!
# Strongly connected components

The components are gathered along the events of a depth-first search. A stack holds the discovered
nodes whose component is not complete. The low point of a node is the least discovery index known
to be reachable from it through such nodes. A node that is finished with its own index as its low
point closes a component: it and all nodes above it on the stack.
-/

namespace FlowBubbles

/-- The strongly connected components of a graph, each node's position in the order of discovery,
and the back edges of the search in the order in which they were met. -/
structure StrongComponents where
  components : List (List Nat)
  discovery : NodeMap Nat
  backEdges : List Edge

namespace StrongComponents

/-- The state of the gathering. -/
structure Gathering where
  low : NodeMap Nat
  stack : List Nat
  stacked : NodeMap Bool
  components : Array (List Nat)

/-- Lowers the low point of a node to at most `n`. -/
def Gathering.lower (s : Gathering) (v n : Nat) : Gathering :=
  { s with low := s.low.set v (min (s.low.get v) n) }

/-- Closes the component of `v`: the part of the stack down to `v`, which is taken off. -/
def Gathering.close (s : Gathering) (v : Nat) : Gathering :=
  let component := s.stack.takeWhile (· != v) ++ [v]
  { s with
    stack := (s.stack.dropWhile (· != v)).drop 1
    stacked := component.foldl (fun m w => m.set w false) s.stacked
    components := s.components.push component }

/-- Takes one event into account. -/
def Gathering.read (discovery : NodeMap Nat) (s : Gathering) : DepthFirst.Event → Gathering
  | .discover v =>
    { s with
      low := s.low.set v (discovery.get v)
      stack := v :: s.stack
      stacked := s.stacked.set v true }
  | .revisit v w _ => if s.stacked.get w then s.lower v (discovery.get w) else s
  | .finish v parent =>
    let low := s.low.get v
    let s := match parent with
      | none => s
      | some p => s.lower p low
    if low = discovery.get v then s.close v else s

/-- The state before the first event. -/
def Gathering.start : Gathering := ⟨.const 0, [], .const false, #[]⟩

/-- The components of more than one node. -/
def nontrivial (s : StrongComponents) : List (List Nat) := s.components.filter (1 < ·.length)

/-- Whether no cycle passes through two or more nodes. -/
def isAcyclic (s : StrongComponents) : Bool := s.backEdges.isEmpty

/-- For each node, the position of its component in the list of components. -/
def componentOf (s : StrongComponents) : NodeMap Nat :=
  s.components.zipIdx.foldl (fun m (component, i) => component.foldl (fun m v => m.set v i) m)
    (.const 0)

end StrongComponents

/-- The strongly connected components of a graph. A component comes after every component that its
edges lead to. -/
def Adjacency.strongComponents (a : Adjacency) : StrongComponents :=
  let events := a.depthFirst
  let discovery := NodeMap.positions (events.filterMap DepthFirst.Event.discovered?) 0
  let gathered := events.foldl (StrongComponents.Gathering.read discovery) .start
  { components := gathered.components.toList
    discovery := discovery
    backEdges := events.filterMap DepthFirst.Event.backEdge? }

end FlowBubbles
