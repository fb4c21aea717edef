import FlowBubbles.Text.CharRange

/-!
# Blank characters

The characters of the White_Space property, which separate the words of a line.
-/

namespace FlowBubbles.Text

/-- The ranges of the blank characters. -/
def blankRanges : CharRanges := [
  (0x9, 0xd), (0x20, 0x20), (0x85, 0x85), (0xa0, 0xa0), (0x1680, 0x1680), (0x2000, 0x200a),
  (0x2028, 0x2029), (0x202f, 0x202f), (0x205f, 0x205f), (0x3000, 0x3000)]

/-- Whether a character is blank. -/
def isBlank (c : Char) : Bool := blankRanges.contains c

/-- The pieces of a text between the characters on which `p` holds; there is one more of them than
of such characters. -/
def pieces (p : Char → Bool) (cs : List Char) : List (List Char) :=
  cs.foldr (fun c found =>
    if p c then [] :: found
    else match found with
      | [] => [[c]]
      | piece :: rest => (c :: piece) :: rest) [[]]

/-- The words of a text: its longest runs without a blank character, in order. -/
def words (cs : List Char) : List (List Char) :=
  (pieces isBlank cs).filter (!·.isEmpty)

/-- The lines of a text. A line ends at a line feed; the last one needs none. -/
def lines (cs : List Char) : List (List Char) :=
  pieces (· == '\n') cs

/-- The text of lines, each of which ends at a line feed. -/
def unlines (ls : List String) : String := String.join (ls.map (· ++ "\n"))

/-- A text without the blanks at its end. -/
def trimEnd (cs : List Char) : List Char := (cs.reverse.dropWhile isBlank).reverse

end FlowBubbles.Text
