import FlowBubbles.KeyedGraph
import FlowBubbles.Text.Blank

/-!
# Edge lists

A graph as a text: a line of two words is an edge, a line of one word is a node, and a line without
words says nothing. What follows the first `#` of a line is a comment.
-/

namespace FlowBubbles.EdgeList

/-- Why a text is no edge list: the line with this number, counted from one, has too many words. -/
structure Flaw where
  line : Nat
  words : Nat
deriving DecidableEq, Repr

/-- The wording of a flaw. -/
def Flaw.message (f : Flaw) : String :=
  "line " ++ toString f.line ++ ": expected `source target`, found " ++ toString f.words ++
    " tokens"

/-- The words of a line, without its comment. -/
def wordsOf (line : List Char) : List String :=
  (Text.words (line.takeWhile (· != '#'))).map String.ofList

/-- Adds what a line says to a graph; the number is the line's own. -/
def readLine (number : Nat) (g : KeyedGraph String) :
    List String → Except Flaw (KeyedGraph String)
  | [] => .ok g
  | [node] => .ok (g.addNode node)
  | [source, target] => .ok (g.addEdge source target).1
  | words => .error ⟨number, words.length⟩

/-- Adds what the lines say, from the line with the given number on, up to the first flaw. -/
def readLines : Nat → KeyedGraph String → List (List Char) → Except Flaw (KeyedGraph String)
  | _, g, [] => .ok g
  | number, g, line :: rest =>
    match readLine number g (wordsOf line) with
    | .ok g => readLines (number + 1) g rest
    | .error flaw => .error flaw

/-- The graph of an edge list. -/
def parse (text : String) : Except Flaw (KeyedGraph String) :=
  readLines 1 .empty (Text.lines text.toList)

end FlowBubbles.EdgeList
