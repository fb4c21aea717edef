import FlowBubbles.Dag.CycleBreaking
import FlowBubbles.DominatorTree.Basic

/-!
# The journal of an analysis

What happens during an analysis is told as a list of notes, which are read off the results of its
stages. A note is a warning or a detail.
-/

namespace FlowBubbles

/-- Something that happened during an analysis. -/
inductive Note
  | turned (pass : Nat) (edge : Edge)
  | ordered (passes turned : Nat)
  | gaveUp (passes remaining : Nat)
  | excluded (count root : Nat)
  | rooted (root size : Nat) (synthetic : Bool)
  | finished (turned bubbles : Nat)
deriving DecidableEq, Repr

/-- How much a note matters. -/
inductive Severity
  | warning
  | detail
deriving DecidableEq, Repr

namespace Note

/-- Giving up and leaving nodes out are warnings. -/
def severity : Note → Severity
  | gaveUp .. | excluded .. => .warning
  | _ => .detail

/-- The wording of a note. -/
def message : Note → String
  | turned pass e =>
    "pass " ++ toString pass ++ ": reversing back edge " ++ nodeName e.source ++ " -> " ++
      nodeName e.target
  | ordered passes count =>
    "graph acyclic after " ++ toString passes ++ " pass(es), " ++ toString count ++
      " edge(s) reversed"
  | gaveUp passes remaining =>
    "cycle breaking gave up after " ++ toString passes ++ " pass(es) with " ++
      toString remaining ++ " cyclic component(s) left"
  | excluded count root =>
    toString count ++ " node(s) unreachable from " ++ nodeName root ++
      ", excluded from the dominator tree"
  | rooted root size synthetic =>
    "dominator tree rooted at " ++ nodeName root ++ " with " ++ toString size ++ " node(s)" ++
      if synthetic then " (synthetic super-root)" else ""
  | finished count bubbles =>
    "pipeline finished: " ++ toString count ++ " reversed edge(s), " ++ toString bubbles ++
      " bubble(s)"

/-- The notes on the edges turned in each pass; passes are counted from one. -/
def ofRounds (rounds : List (List Edge)) : List Note :=
  rounds.zipIdx.flatMap fun (edges, i) => edges.map (turned (i + 1))

end Note

/-- The notes on a graph that was made acyclic. -/
def Dag.notes {κ : Type} (d : Dag κ) : List Note :=
  Note.ofRounds d.rounds ++ [.ordered d.passes d.reversed.length]

/-- The notes on a graph that was not made acyclic. -/
def Stuck.notes (s : Stuck) : List Note :=
  Note.ofRounds s.rounds ++ [.gaveUp s.rounds.length s.remaining]

/-- The notes on a dominator tree. -/
def DominatorTree.notes (t : DominatorTree) : List Note :=
  (if t.unreachable.isEmpty then [] else [.excluded t.unreachable.length t.root]) ++
    [.rooted t.root t.size t.superRoot.isSome]

end FlowBubbles
