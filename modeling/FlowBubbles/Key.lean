import FlowBubbles.Text.Quoted

/-!
# Node keys

A key names a node. Drawings show it plainly; messages show it in a form that leaves no doubt where
it ends.
-/

namespace FlowBubbles

/-- The two written forms of a key. -/
class KeyText (κ : Type) where
  plain : κ → String
  quoted : κ → String

instance : KeyText String := ⟨id, Text.quoted⟩

/-- A key that is a number or a text. A number differs from every text. -/
inductive Key
  | number (n : Int)
  | text (s : String)
deriving DecidableEq, Repr, Inhabited

/-- Numbers are written in decimal; texts are quoted in messages only. -/
instance : KeyText Key where
  plain
    | .number n => toString n
    | .text s => s
  quoted
    | .number n => toString n
    | .text s => Text.quoted s

end FlowBubbles
