/-!
# Sets of characters given by ranges

Character properties are data: a list of ranges of code points, both ends included.
-/

namespace FlowBubbles.Text

/-- A set of code points as a list of closed ranges. -/
abbrev CharRanges := List (Nat × Nat)

/-- Whether a character lies in one of the ranges. -/
def CharRanges.contains (ranges : CharRanges) (c : Char) : Bool :=
  ranges.any fun (first, last) => first ≤ c.toNat && c.toNat ≤ last

end FlowBubbles.Text
