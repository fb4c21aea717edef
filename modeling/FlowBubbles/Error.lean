import FlowBubbles.Node
import FlowBubbles.Text.Quoted

/-!
# Errors

An error is a cause. `Error.message` words it for a reader, and `Error.inspect` shows its kind and
its fields.
-/

namespace FlowBubbles

/-- What can be wrong with the parts of a graph. -/
inductive GraphFlaw
  /-- An edge starts at a node that the graph of `size` nodes does not have. -/
  | missingSource (node size : Nat)
  /-- An edge ends at a node that the graph of `size` nodes does not have. -/
  | missingTarget (node size : Nat)
  /-- An edge names a key outside the node set; both keys are given in their quoted form. -/
  | foreignEdge (source target : String)
  /-- Every node has a predecessor other than itself. -/
  | noEntry
  /-- A flaw stated in words. -/
  | stated (text : String)
deriving DecidableEq, Repr

/-- Why a request to the library fails. -/
inductive Error
  | invalidGraph (flaw : GraphFlaw)
  /-- No node has the key, which is given in its quoted form. -/
  | unknownNode (key : String)
  | emptyGraph
  /-- The passes are used up and `components` cyclic components are left. -/
  | cyclesRemain (passes components : Nat)
  /-- The nodes have no path from the root. -/
  | unreachableNodes (nodes : List Nat)
  /-- An observer refused; the text names it and gives its reason. -/
  | observerFailed (text : String)
deriving DecidableEq, Repr

/-- The wording of a flaw. -/
def GraphFlaw.message : GraphFlaw → String
  | missingSource v n =>
    "source node " ++ nodeName v ++ " does not exist in graph with " ++ toString n ++ " nodes"
  | missingTarget v n =>
    "target node " ++ nodeName v ++ " does not exist in graph with " ++ toString n ++ " nodes"
  | foreignEdge s t => "edge (" ++ s ++ ", " ++ t ++ ") references a node outside the node set"
  | noEntry => "acyclic graph has no entry node"
  | stated text => text

namespace Error

/-- The wording of an error. -/
def message : Error → String
  | invalidGraph flaw => "invalid graph: " ++ flaw.message
  | unknownNode key => "node " ++ key ++ " does not exist in the graph"
  | emptyGraph => "graph is empty"
  | cyclesRemain passes components =>
    "cycle breaking failed after " ++ toString passes ++ " passes (" ++ toString components ++
      " cyclic components remain)"
  | unreachableNodes nodes =>
    toString nodes.length ++ " node(s) unreachable from the root: " ++
      ", ".intercalate (nodes.map nodeName)
  | observerFailed text => "observer failed: " ++ text

/-- The kind of an error and its fields. -/
def inspect : Error → String
  | invalidGraph flaw => "InvalidGraph(" ++ Text.quoted flaw.message ++ ")"
  | unknownNode key => "NodeNotFound(" ++ Text.quoted key ++ ")"
  | emptyGraph => "EmptyGraph"
  | cyclesRemain passes components =>
    "CycleBreakingFailure \x7b passes: " ++ toString passes ++ ", remaining_cycles: " ++
      toString components ++ " \x7d"
  | unreachableNodes nodes =>
    "UnreachableNodes \x7b nodes: [" ++ ", ".intercalate (nodes.map nodeInspect) ++ "] \x7d"
  | observerFailed text => "Observer(" ++ Text.quoted text ++ ")"

end Error

end FlowBubbles
