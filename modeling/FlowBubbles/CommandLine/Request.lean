import FlowBubbles.Analysis.Basic

/-!
# Requests and answers

A request names one of four commands, and each command has its own options. Two options, which choose
the form of the output and the amount of notes, go with every command. A request is answered by an
exit code and two texts.
-/

namespace FlowBubbles.CommandLine

/-- What the command for drawings draws. -/
inductive Stage
  | input
  | acyclic
  | domtree
deriving DecidableEq, Repr

/-- A command with the name of its file and its options. -/
inductive Command
  /-- The whole analysis. -/
  | analyze (file : String) (entry : Option String) (allowUnreachable : Bool)
      (maxPasses : Option Nat)
  /-- The graph without cycles. -/
  | acyclic (file : String) (maxPasses : Option Nat)
  /-- The dominator tree. -/
  | domtree (file : String) (entry : Option String) (allowUnreachable showSuperRoot : Bool)
  /-- A drawing. -/
  | dot (file : String) (stage : Stage) (entry : Option String)
deriving DecidableEq, Repr

/-- The name of the file of a command. -/
def Command.file : Command → String
  | analyze file .. | acyclic file .. | domtree file .. | dot file .. => file

/-- The options that go with every command. -/
structure GlobalOptions where
  json : Bool := false
  verbose : Bool := false
deriving DecidableEq, Repr

/-- The options of an analysis. -/
structure StageOptions where
  entry : Option String := none
  allowUnreachable : Bool := false
  maxPasses : Option Nat := none
  showSuperRoot : Bool := false
deriving DecidableEq, Repr

/-- The configuration of the analysis with these options. -/
def StageOptions.config (o : StageOptions) : Config String where
  entry := o.entry
  allowUnreachable := o.allowUnreachable
  passLimit := o.maxPasses
  includeSuperRoot := o.showSuperRoot

/-- A complete request. -/
structure Request where
  command : Command
  options : GlobalOptions := {}
deriving DecidableEq, Repr

/-- The name of the file of a request. -/
def Request.file (q : Request) : String := q.command.file

/-- The answer to a command line: the exit code, the output and the error output. -/
structure Answer where
  exit : Nat
  stdout : String
  stderr : String
deriving DecidableEq, Repr

end FlowBubbles.CommandLine
