import FlowBubbles.Digraph.Adjacency
import FlowBubbles.Iteration

/-!
# Depth-first search as a list of events

The search starts from every node in ascending order that it has not met before, and follows the
edges out of a node in order. It reports what happens: a node is discovered, an edge leads to a
node that was discovered before, a node is finished. `Adjacency.depthFirst` is the whole report;
discovery indices, back edges and strongly connected components are read off it.
-/

namespace FlowBubbles

namespace DepthFirst

/-- How far the search is with a node: not met, on the current path, or finished. -/
inductive Mark
  | fresh
  | active
  | done
deriving DecidableEq, Repr

/-- What happens during a search. -/
inductive Event
  /-- The node is met for the first time. -/
  | discover (node : Nat)
  /-- The edge leads to a node met before, which is on the current path if `active` holds. -/
  | revisit (source target : Nat) (active : Bool)
  /-- All edges out of the node are done; the search goes back to `parent`, if there is one. -/
  | finish (node : Nat) (parent : Option Nat)
deriving DecidableEq, Repr

/-- The state of a search: the current path with the edges still to follow at each of its nodes,
deepest first, the start nodes still to look at, and the report so far. -/
structure Search where
  mark : NodeMap Mark
  path : List (Nat × List Nat)
  roots : List Nat
  events : Array Event

/-- Meets a node: it becomes the end of the path. -/
def Search.enter (a : Adjacency) (s : Search) (v : Nat) : Search :=
  { s with
    mark := s.mark.set v .active
    path := (v, a.succ v) :: s.path
    events := s.events.push (.discover v) }

/-- Whether there is nothing left to do. -/
def Search.halted (s : Search) : Bool := s.path.isEmpty && s.roots.isEmpty

/-- Does the next thing: follows an edge, leaves a node, or looks at a start node. -/
def Search.next (a : Adjacency) (s : Search) : Search :=
  match s.path with
  | (v, w :: rest) :: path =>
    let s := { s with path := (v, rest) :: path }
    match s.mark.get w with
    | .fresh => s.enter a w
    | .active => { s with events := s.events.push (.revisit v w true) }
    | .done => { s with events := s.events.push (.revisit v w false) }
  | (v, []) :: path =>
    { s with
      mark := s.mark.set v .done
      path := path
      events := s.events.push (.finish v (path.head?.map Prod.fst)) }
  | [] =>
    match s.roots with
    | [] => s
    | v :: roots =>
      let s := { s with roots := roots }
      match s.mark.get v with
      | .fresh => s.enter a v
      | _ => s

/-- The state before the first node is met. -/
def Search.start (a : Adjacency) : Search := ⟨.const .fresh, [], a.nodes, #[]⟩

/-- The number of steps of a whole search: each node is looked at as a start node, entered and left
at most once, and each edge is followed at most once. -/
def stepBound (a : Adjacency) : Nat := 3 * a.size + a.edgeCount

/-- The discovered node of an event. -/
def Event.discovered? : Event → Option Nat
  | discover v => some v
  | _ => none

/-- The back edge of an event: an edge to another node of the current path. -/
def Event.backEdge? : Event → Option Edge
  | revisit v w true => if w = v then none else some ⟨v, w⟩
  | _ => none

end DepthFirst

namespace Adjacency

variable (a : Adjacency)

/-- The events of the depth-first search of the whole graph. -/
def depthFirst : List DepthFirst.Event :=
  (iterate DepthFirst.Search.halted (DepthFirst.Search.next a) (DepthFirst.stepBound a)
    (DepthFirst.Search.start a)).events.toList

end Adjacency

end FlowBubbles
