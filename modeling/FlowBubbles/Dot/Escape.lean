/-!
# Texts inside a drawing

A text in a DOT document stands between double quotes. Six replacements prepare it, one after the
other. Backslashes come first, so that none of the backslashes that the later replacements bring
in is doubled.
-/

namespace FlowBubbles.Dot

/-- A replacement of one character wherever it occurs. -/
structure Replacement where
  find : Char
  put : List Char

/-- Replaces every occurrence. -/
def Replacement.apply (r : Replacement) (cs : List Char) : List Char :=
  cs.flatMap fun c => if c = r.find then r.put else [c]

/-- The replacements in their order: backslash, quote and angle brackets get a backslash in front,
a line feed becomes an escape, and a carriage return vanishes. -/
def replacements : List Replacement :=
  [⟨'\\', ['\\', '\\']⟩, ⟨'"', ['\\', '"']⟩, ⟨'\n', ['\\', 'n']⟩, ⟨'\r', []⟩,
    ⟨'<', ['\\', '<']⟩, ⟨'>', ['\\', '>']⟩]

/-- The form of a text between the quotes of a document. -/
def escapeChars (cs : List Char) : List Char :=
  replacements.foldl (fun cs r => r.apply cs) cs

/-- The form of a text between the quotes of a document. -/
def escape (s : String) : String := String.ofList (escapeChars s.toList)

end FlowBubbles.Dot
