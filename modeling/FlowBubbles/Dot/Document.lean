import FlowBubbles.Dot.Escape

/-!
# Drawings as documents

A document has a name and a list of statements. `Document.render` writes it in the DOT language,
one statement a line; a title takes two.
-/

namespace FlowBubbles.Dot

/-- An attribute of a statement. The key is a plain name and is written as it is. -/
structure Attribute where
  key : String
  value : String
deriving DecidableEq, Repr

/-- A statement of a drawing. -/
inductive Statement
  | title (text : String)
  | node (name label : String) (attributes : List Attribute)
  | edge (source target : String) (attributes : List Attribute)
deriving DecidableEq, Repr

/-- A drawing of a directed graph. -/
structure Document where
  name : String
  statements : List Statement
deriving DecidableEq, Repr

/-- A text between quotes. -/
def quote (s : String) : String := "\"" ++ escape s ++ "\""

/-- The written form of an attribute. -/
def Attribute.render (a : Attribute) : String := a.key ++ "=" ++ quote a.value

/-- The written form of a list of attributes, between brackets. -/
def renderAttributes (attributes : List Attribute) : String :=
  "[" ++ ", ".intercalate (attributes.map Attribute.render) ++ "]"

/-- The written form of a statement. A node always shows its label, which comes before its other
attributes; an edge without attributes has no brackets. -/
def Statement.render : Statement → String
  | title text => "    label=" ++ quote text ++ ";\n    labelloc=t;\n"
  | node name label attributes =>
    "    " ++ quote name ++ " " ++ renderAttributes (⟨"label", label⟩ :: attributes) ++ ";\n"
  | edge source target [] => "    " ++ quote source ++ " -> " ++ quote target ++ ";\n"
  | edge source target attributes =>
    "    " ++ quote source ++ " -> " ++ quote target ++ " " ++ renderAttributes attributes ++ ";\n"

/-- The defaults that open every document: ellipses and a small fixed-width font. -/
def preamble : String :=
  "    node [shape=ellipse, fontname=\"Courier\", fontsize=10];\n" ++
    "    edge [fontname=\"Courier\", fontsize=9];\n"

/-- The text of a document. -/
def Document.render (d : Document) : String :=
  "digraph " ++ quote d.name ++ " \x7b\n" ++ preamble ++
    String.join (d.statements.map Statement.render) ++ "\x7d\n"

end FlowBubbles.Dot
