import FlowBubbles.CommandLine.Request
import FlowBubbles.Journal
import FlowBubbles.Text.Json
import FlowBubbles.Text.Table

/-!
# Output

An output has two forms: a JSON value, and lines of text in which tables stand under titles. How a
table is drawn and how a value, a note or a failure is worded in full is not settled here. An output
is made for any such formats.
-/

namespace FlowBubbles.CommandLine

open Text (Json Table)

/-- Why a request fails: what was tried, and the reason. -/
structure Failure where
  context : String
  cause : String
deriving DecidableEq, Repr

/-! ## Formats -/

/-- The formats of what is printed. -/
structure Formats where
  /-- The drawing of a table. -/
  table : Table → String
  /-- The text of a JSON value. -/
  value : Json → String
  /-- The line of a note, with its end. -/
  note : Note → String
  /-- The report of a failure. -/
  failure : Failure → String

/-- The formats for an output of unlimited width. -/
def Formats.plain : Formats where
  table := Table.draw
  value := Json.pretty 0
  note n :=
    (match n.severity with
      | .warning => "[WARN ] "
      | .detail => "[DEBUG] ") ++ n.message ++ "\n"
  failure e := "Error: " ++ e.context ++ "\n\nCaused by:\n    " ++ e.cause ++ "\n"

/-! ## Lines of text -/

/-- A line with a name and a value. -/
def fieldLine (name value : String) : String :=
  name ++ ":" ++ Text.spaces (16 - name.length) ++ value

/-- What is printed of a drawn table: its lines, indented and without the blanks at their ends. A
line without anything on it is left out. -/
def printedLines (drawn : String) : List String :=
  (((Text.lines drawn.toList).map Text.trimEnd).filter (!·.isEmpty)).map fun line =>
    "  " ++ String.ofList line

/-- The lines for a table. A table without rows is replaced by a remark. -/
def tableLines (f : Formats) (remark : String) (t : Table) : List String :=
  if t.rows.isEmpty then ["  " ++ remark] else printedLines (f.table t)

/-- A part with a title and a table. -/
def tablePart (f : Formats) (title remark : String) (t : Table) : List String :=
  "" :: (title ++ ":") :: tableLines f remark t

/-- The chosen form of an output. -/
def GlobalOptions.form (o : GlobalOptions) (f : Formats) (json : Json) (lines : List String) :
    String :=
  if o.json then f.value json ++ "\n" else Text.unlines lines

end FlowBubbles.CommandLine
