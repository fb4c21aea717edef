import FlowBubbles.Dag.Basic
import FlowBubbles.Digraph.StrongComponents

/-!
# Breaking cycles

A graph is made acyclic in passes. A pass chooses in each component of more than one node the back
edge that lies deepest in the depth-first search, and turns the chosen edges around: the first copy
of the edge is taken away and the flipped edge is put at the end. The passes go on until there is a
topological order or their number reaches a limit.
-/

namespace FlowBubbles

/-! ## Turning edges -/

/-- An edge, and whether it came about by turning another one around. -/
structure Arc where
  edge : Edge
  turned : Bool
deriving DecidableEq, Repr

namespace Arc

/-- Turns the first copy of an edge around. The flipped edge is put at the end. -/
def turn (arcs : List Arc) (e : Edge) : List Arc :=
  if arcs.any (·.edge == e) then arcs.eraseP (·.edge == e) ++ [⟨e.flip, true⟩] else arcs

theorem turn_lt {n : Nat} {arcs : List Arc}
    (h : ∀ a ∈ arcs, a.edge.source < n ∧ a.edge.target < n) (e : Edge) :
    ∀ a ∈ turn arcs e, a.edge.source < n ∧ a.edge.target < n := by
  intro a ha
  unfold turn at ha
  split at ha
  · rename_i hany
    obtain ⟨b, hb, hbe⟩ := List.any_eq_true.1 hany
    rw [beq_iff_eq] at hbe
    rcases List.mem_append.1 ha with ha | ha
    · exact h a (List.mem_of_mem_eraseP ha)
    · rw [List.mem_singleton] at ha
      subst ha
      exact hbe ▸ (h b hb).symm
  · exact h a ha

theorem foldl_turn_lt {n : Nat} (es : List Edge) {arcs : List Arc}
    (h : ∀ a ∈ arcs, a.edge.source < n ∧ a.edge.target < n) :
    ∀ a ∈ es.foldl turn arcs, a.edge.source < n ∧ a.edge.target < n := by
  induction es generalizing arcs with
  | nil => exact h
  | cons e es ih => exact ih (turn_lt h e)

/-- The positions of the turned edges. -/
def turnedAt (arcs : List Arc) : List Nat :=
  arcs.zipIdx.filterMap fun (a, i) => if a.turned then some i else none

end Arc

/-! ## Choosing the edges of a pass -/

namespace StrongComponents

/-- Whether `e` is chosen before `f`: the sum of the discovery indices of its ends is greater, or
the sums are equal and its ends come first in ascending order. -/
def prefers (s : StrongComponents) (e f : Edge) : Bool :=
  let depth (e : Edge) := s.discovery.get e.source + s.discovery.get e.target
  depth f < depth e ||
    depth e == depth f && (e.source < f.source || e.source == f.source && e.target < f.target)

/-- The edge that is chosen before all others. -/
def preferred (s : StrongComponents) (es : List Edge) : Option Edge :=
  es.foldl (fun best e =>
    match best with
    | none => some e
    | some b => if s.prefers e b then some e else some b) none

/-- The back edges to turn around in one pass: one in each component of more than one node, in the
order of the components. -/
def chosen (s : StrongComponents) : List Edge :=
  let home := s.componentOf
  s.components.zipIdx.filterMap fun (component, i) =>
    if 1 < component.length then s.preferred (s.backEdges.filter (home.get ·.source == i))
    else none

end StrongComponents

/-! ## Passes -/

variable {κ : Type}

/-- A graph in the course of being made acyclic: the graph as it was given, its edges by now, and
the edges chosen in each pass so far. -/
structure Draft (κ : Type) where
  base : KeyedGraph κ
  arcs : List Arc
  arcs_lt : ∀ a ∈ arcs, a.edge.source < base.size ∧ a.edge.target < base.size
  rounds : List (List Edge)

/-- Why a graph was not made acyclic: the passes were used up, and so many components of more than
one node were left. -/
structure Stuck where
  rounds : List (List Edge)
  remaining : Nat

namespace Draft

/-- A graph before the first pass. -/
def ofGraph (g : KeyedGraph κ) : Draft κ where
  base := g
  arcs := g.edges.toList.map (⟨·, false⟩)
  arcs_lt a ha := by
    obtain ⟨e, he, rfl⟩ := List.mem_map.1 ha
    exact g.edges_lt e (by simpa using he)
  rounds := []

/-- The graph by now. -/
def graph (d : Draft κ) : KeyedGraph κ :=
  d.base.withEdges (d.arcs.map Arc.edge).toArray fun e he => by
    simp only [List.mem_toArray, List.mem_map] at he
    obtain ⟨a, ha, rfl⟩ := he
    exact d.arcs_lt a ha

/-- Turns the chosen edges around. -/
def turn (d : Draft κ) (chosen : List Edge) : Draft κ where
  base := d.base
  arcs := chosen.foldl Arc.turn d.arcs
  arcs_lt := Arc.foldl_turn_lt chosen d.arcs_lt
  rounds := d.rounds ++ [chosen]

/-- Makes one pass. -/
def pass (d : Draft κ) : Draft κ := d.turn d.graph.adjacency.strongComponents.chosen

/-- Makes passes until there is a topological order, at most `budget` of them. -/
def settle (budget : Nat) (d : Draft κ) : Except Stuck (Dag κ) :=
  match h : d.graph.adjacency.topologicalOrder with
  | some order => .ok ⟨d.graph, order, h, d.rounds, Arc.turnedAt d.arcs⟩
  | none =>
    match budget with
    | 0 => .error ⟨d.rounds, d.graph.adjacency.strongComponents.nontrivial.length⟩
    | budget + 1 => settle budget d.pass

end Draft

/-- The error that reports a failure to make a graph acyclic. -/
def Stuck.error (s : Stuck) : Error := .cyclesRemain s.rounds.length s.remaining

/-- Makes a graph acyclic. Without a limit there may be as many passes as the graph has edges. -/
def KeyedGraph.breakCycles (g : KeyedGraph κ) (limit : Option Nat) : Except Stuck (Dag κ) :=
  (Draft.ofGraph g).settle (limit.getD g.edgeCount)

end FlowBubbles
