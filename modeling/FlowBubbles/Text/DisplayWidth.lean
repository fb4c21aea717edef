import FlowBubbles.Text.EmojiSequence

/-!
# Display width

How many columns of a terminal a text takes. The columns of its characters are added up from the end,
with a view to what stands behind each character: some characters share a sign or a picture with the
ones behind them, and a selector changes the form of the character before it.
-/

namespace FlowBubbles.Text

/-! ## Selectors -/

/-- A character that chooses the form of the character before it. -/
inductive Selector
  /-- The wide form of a quotation mark. -/
  | wide
  /-- The plain form of an emoji. -/
  | plain
  /-- The picture of an emoji. -/
  | picture
deriving DecidableEq, Repr

/-- The selector that a character is. -/
def Selector.ofChar? : Char → Option Selector
  | '\ufe01' => some .wide
  | '\ufe0e' => some .plain
  | '\ufe0f' => some .picture
  | _ => none

/-- Whether a character is a quotation mark with a wide form. -/
def isQuotationMark (c : Char) : Bool :=
  c == '\u2018' || c == '\u2019' || c == '\u201c' || c == '\u201d'

/-! ## What stands behind a character -/

/-- The start of a text, as far as it bears on the width of a character in front of it. -/
inductive Opening
  | other
  | letters (l : Ligature)
  | emoji (e : EmojiSequence)
deriving DecidableEq, Repr

/-- A text as it bears on the width of a character in front of it: how it starts, and the selectors in
front of that which are still to choose a form, the first one first. -/
structure Behind where
  opening : Opening := .other
  selectors : List Selector := []
deriving DecidableEq, Repr

namespace Opening

/-- The start of a text with this character in front. -/
def ofChar (c : Char) : Opening :=
  if c.toNat < 0x80 then other
  else match EmojiSequence.ofChar? c with
    | some e => emoji e
    | none =>
      match Ligature.ofChar? c with
      | some l => letters l
      | none => other

/-- The columns that a character adds in front of a text, and how the text then starts. -/
def put (o : Opening) (c : Char) : Int × Opening :=
  let joined : Option (Int × Opening) :=
    match o with
    | other => none
    | letters l => (l.join? c).map fun (columns, l) => (columns, (l.map letters).getD other)
    | emoji e => (e.join? c).map fun (columns, e) => (columns, emoji e)
  joined.getD (charWidth c, ofChar c)

/-- The columns of a character whose form a selector chooses, and how the text then starts. `none` if
the character has no such form. -/
def putSelected? (o : Opening) (s : Selector) (c : Char) : Option (Int × Opening) :=
  match s with
  | .wide => if isQuotationMark c then some (2, other) else none
  | .plain =>
    if Emoji.isPicture c && Emoji.hasTwoForms c && !Emoji.isFramedIdeograph c then some (1, other)
    else none
  | .picture =>
    if Emoji.hasTwoForms c then
      match o with
      | emoji e => some (if e.takesPicture then 0 else 2, emoji .emoji)
      | _ => some (2, emoji .emoji)
    else none

/-- The start of a text in front of which selectors have chosen nothing. -/
def withoutSelectors : Opening → Opening
  | letters l => letters l
  | _ => other

end Opening

namespace Behind

/-- A text with a selector in front. A sign of letters that admits marks goes on in front of any selector
and keeps those before it, except that a picture can be asked for only by the first one. A picture goes
on in front of one that asks for a picture. -/
def select (b : Behind) (s : Selector) : Behind :=
  match b.opening with
  | .letters l =>
    if l.admitsMarks then ⟨.letters l, s :: b.selectors.filter (· != .picture)⟩ else ⟨.other, [s]⟩
  | .emoji e => ⟨if s == .picture && e.takesPicture then .emoji e else .other, [s]⟩
  | .other => ⟨.other, [s]⟩

/-- The columns that a character without a chosen form adds in front of a text, and the text with it. -/
def putPlain (b : Behind) (c : Char) : Int × Behind :=
  match Selector.ofChar? c with
  | some s => (0, b.select s)
  | none =>
    let (columns, o) := b.opening.put c
    (columns, { opening := o })

/-- The columns that a character adds in front of a text, and the text with it. -/
def put (b : Behind) (c : Char) : Int × Behind :=
  match b.selectors with
  | [] => b.putPlain c
  | selectors =>
    match selectors.findSome? (b.opening.putSelected? · c) with
    | some (columns, o) => (columns, { opening := o })
    | none => { b with opening := b.opening.withoutSelectors }.putPlain c

end Behind

/-! ## Texts -/

/-- The number of display columns of a text. -/
def displayWidth (s : String) : Nat :=
  (s.toList.foldr (fun c (total, behind) =>
    let (columns, behind) := behind.put c
    (total + columns, behind)) ((0 : Int), ({} : Behind))).1.toNat

end FlowBubbles.Text
