import FlowBubbles.Dot.Drawing

/-!
# Observers of an analysis

Observers are told about an analysis after all its stages succeeded, one after the other, and the
first one that refuses ends it with an error. An observer may leave something in a state that all
observers share; one kind leaves the drawings of the report on a shelf, from where they can be
taken once.
-/

namespace FlowBubbles

variable {κ σ : Type}

/-- An observer: its name, and what it does with the analysed graph and the report. -/
structure Observer (κ σ : Type) where
  name : String
  notify : KeyedGraph κ → Report κ → σ → Except Error Unit × σ

/-- Tells the observers in order, until one refuses. -/
def notifyAll (g : KeyedGraph κ) (r : Report κ) :
    List (Observer κ σ) → σ → Except Error Unit × σ
  | [], s => (.ok (), s)
  | o :: rest, s =>
    match o.notify g r s with
    | (.ok (), s) => notifyAll g r rest s
    | (.error e, s) => (.error (.observerFailed (o.name ++ ": " ++ e.message)), s)

/-- Analyses a graph and tells the observers about it. -/
def analyzeWith [DecidableEq κ] [KeyText κ] (c : Config κ) (observers : List (Observer κ σ))
    (g : KeyedGraph κ) (s : σ) : Except Error (Report κ) × σ :=
  match (analyze c g).outcome with
  | .error e => (.error e, s)
  | .ok r =>
    match notifyAll g r observers s with
    | (.ok (), s) => (.ok r, s)
    | (.error e, s) => (.error e, s)

/-- The drawings of a report: the graph, the acyclic graph and the dominator tree. -/
structure Drawings where
  input : Dot.Document
  acyclic : Dot.Document
  tree : Dot.Document
deriving DecidableEq, Repr

/-- The drawings of a report under their standard titles. -/
def Report.drawings [KeyText κ] (g : KeyedGraph κ) (r : Report κ) : Drawings where
  input := g.drawing "input graph"
  acyclic := r.dag.drawing "acyclic graph"
  tree := r.drawing "dominator tree"

/-- Places for drawings, each of which holds the latest ones until they are taken. -/
abbrev Shelf := NodeMap (Option Drawings)

namespace Shelf

/-- The shelf with nothing on it. -/
def empty : Shelf := .const none

/-- What lies at a place, and the shelf without it. -/
def take (s : Shelf) (i : Nat) : Option Drawings × Shelf := (s.get i, s.set i none)

end Shelf

/-- The observer that leaves drawings with `store`. -/
def Observer.drawing [KeyText κ] (store : Drawings → σ → σ) : Observer κ σ where
  name := "dot"
  notify g r s := (.ok (), store (r.drawings g) s)

end FlowBubbles
