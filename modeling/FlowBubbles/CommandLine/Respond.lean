import FlowBubbles.Analysis.Observer
import FlowBubbles.CommandLine.FileTree
import FlowBubbles.CommandLine.Summary
import FlowBubbles.EdgeList

/-!
# Answering a request

The result of a command goes to the output; notes on the analysis and a failure go to the error
output. With JSON output there are no notes.
-/

namespace FlowBubbles.CommandLine

/-! ## Commands -/

/-- The result of a command: the notes on it, and the output or the failure. -/
structure Result where
  notes : List Note
  output : Except Failure String

/-- The failure of a step with an error. -/
def failure (context : String) (e : Error) : Except Failure String := .error ⟨context, e.message⟩

/-- Analyses a graph and shows something of the report. -/
def resultOfAnalysis (c : Config String) (g : KeyedGraph String) (context : String)
    (view : Report String → String) : Result :=
  let analysis := analyze c g
  { notes := analysis.notes
    output :=
      match analysis.outcome with
      | .error e => failure context e
      | .ok r => .ok (view r) }

/-- Makes a graph acyclic and shows something of it. -/
def resultOfBreaking (limit : Option Nat) (g : KeyedGraph String) (context : String)
    (view : Dag String → String) : Result :=
  match g.breakCycles limit with
  | .error s => ⟨s.notes, failure context s.error⟩
  | .ok d => ⟨d.notes, .ok (view d)⟩

namespace Command

/-- The graph of the file of a command. -/
def graph (command : Command) (contents : Except ReadFailure String) :
    Except Failure (KeyedGraph String) :=
  match contents with
  | .error e => .error ⟨"failed to read graph file: " ++ command.file, e.message⟩
  | .ok text =>
    match EdgeList.parse text with
    | .error e => .error ⟨"failed to parse " ++ command.file, e.message⟩
    | .ok g => .ok g

/-- The result of a command for a graph. An analysis never shows the super-root, the dominator tree
comes without a limit on the passes, and a drawing depends on no option but the entry. -/
def result (f : Formats) (o : GlobalOptions) (g : KeyedGraph String) : Command → Result
  | .analyze file entry allowUnreachable maxPasses =>
    let options : StageOptions :=
      { entry, allowUnreachable, maxPasses, showSuperRoot := false }
    resultOfAnalysis options.config g ("analysis of " ++ file ++ " failed") fun r =>
      let s := AnalysisSummary.ofReport r
      o.form f s.json (s.lines f)
  | .acyclic file maxPasses =>
    resultOfBreaking maxPasses g ("cycle breaking of " ++ file ++ " failed") fun d =>
      let s := AcyclicSummary.ofDag d
      o.form f s.json (s.lines f)
  | .domtree file entry allowUnreachable showSuperRoot =>
    let options : StageOptions :=
      { entry, allowUnreachable, maxPasses := none, showSuperRoot }
    resultOfAnalysis options.config g ("dominator tree construction for " ++ file ++ " failed")
      fun r =>
        let s := TreeSummary.ofReport r
        o.form f s.json (s.lines f)
  | .dot file .input _ => ⟨[], .ok (g.drawing file).render⟩
  | .dot file .acyclic _ =>
    resultOfBreaking none g ("cycle breaking of " ++ file ++ " failed") fun d =>
      (d.drawing file).render
  | .dot file .domtree entry =>
    resultOfAnalysis { entry } g ("analysis of " ++ file ++ " failed") fun r =>
      (r.drawings g).tree.render

end Command

/-! ## Answers -/

/-- Whether a note is shown: warnings are, details on request, and none beside JSON. -/
def GlobalOptions.shows (o : GlobalOptions) (n : Note) : Bool :=
  !o.json && (o.verbose || n.severity == .warning)

/-- The answer to a request, given the contents of its file. -/
def Request.respond (f : Formats) (q : Request) (contents : Except ReadFailure String) : Answer :=
  match q.command.graph contents with
  | .error e => ⟨1, "", f.failure e⟩
  | .ok g =>
    let r := q.command.result f q.options g
    let notes := String.join ((r.notes.filter q.options.shows).map f.note)
    match r.output with
    | .ok text => ⟨0, text, notes⟩
    | .error e => ⟨1, "", notes ++ f.failure e⟩

end FlowBubbles.CommandLine
