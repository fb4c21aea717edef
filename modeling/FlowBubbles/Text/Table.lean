import FlowBubbles.Text.Blank
import FlowBubbles.Text.DisplayWidth

/-!
# Tables of plain text

A table has a header and rows of cells. In its plain drawing each column is as wide as its widest
cell on display, and no cell is broken.
-/

namespace FlowBubbles.Text

/-- To which side the cells of a column are moved. -/
inductive Alignment
  | left
  | right
deriving DecidableEq, Repr

/-- The head of a column. So many spaces are kept free on the sides of its cells. -/
structure Column where
  header : String
  alignment : Alignment
  freeLeft : Nat
  freeRight : Nat
deriving DecidableEq, Repr

/-- A table; each row has a cell for every column. -/
structure Table where
  columns : List Column
  rows : List (List String)
deriving DecidableEq, Repr

/-- So many spaces. -/
def spaces (n : Nat) : String := String.ofList (List.replicate n ' ')

namespace Table

/-- The table with these headers. A column keeps one space free on each side on which there is
another column. -/
def ofHeaders (headers : List (String × Alignment)) (rows : List (List String)) : Table where
  columns := headers.zipIdx.map fun ((header, alignment), i) =>
    { header, alignment
      freeLeft := if i = 0 then 0 else 1
      freeRight := if i = headers.length - 1 then 0 else 1 }
  rows := rows

variable (t : Table)

/-- The lines of the table as lists of cells, the header first. -/
def cellLines : List (List String) := t.columns.map Column.header :: t.rows

/-- The width of a column: that of its widest cell. -/
def width (i : Nat) : Nat :=
  t.cellLines.foldl (fun n cells => max n (displayWidth (cells.getD i ""))) 0

/-- A cell brought to the width of its column by spaces. -/
def drawCell (column : Column) (width : Nat) (cell : String) : String :=
  let missing := spaces (width - displayWidth cell)
  spaces column.freeLeft ++
    (match column.alignment with
      | .left => cell ++ missing
      | .right => missing ++ cell) ++
    spaces column.freeRight

/-- The plain drawing of the table. -/
def draw : String :=
  let widths := (List.range t.columns.length).map t.width
  unlines <| t.cellLines.map fun cells =>
    String.join <| (t.columns.zip (widths.zip cells)).map fun (column, width, cell) =>
      drawCell column width cell

end Table

end FlowBubbles.Text
