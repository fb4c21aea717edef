import FlowBubbles.Text.CharWidth

/-!
# Letters that are written as one sign

In some scripts letters that follow each other share one sign, which is narrower than the letters
apart. A text is read from its end here: a `Ligature` is the part of such a sign that has been read,
and `Ligature.join?` says what the character in front of it adds. Marks that are not shown may stand
anywhere inside most signs, and outside Arabic so may joiners.
-/

namespace FlowBubbles.Text

/-! ## Characters between letters -/

/-- The character that asks for one sign of the two characters around it. -/
def joiner : Char := '\u200d'

/-- The ranges of the marks that are not shown. -/
def hiddenMarkRanges : CharRanges := [
  (0x34f, 0x34f), (0x17b4, 0x17b5), (0x180b, 0x180d), (0x180f, 0x180f), (0xfe00, 0xfe0f),
  (0xe0100, 0xe01ef)]

/-- The ranges of the characters of no column that keep the Arabic letters around them apart. -/
def partingRanges : CharRanges := [
  (0x605, 0x605), (0x890, 0x891), (0x8e2, 0x8e2), (0x9be, 0x9be), (0x9d7, 0x9d7), (0xb3e, 0xb3e),
  (0xb57, 0xb57), (0xbbe, 0xbbe), (0xbd7, 0xbd7), (0xcc0, 0xcc0), (0xcc2, 0xcc2), (0xcc7, 0xcc8),
  (0xcca, 0xccb), (0xcd5, 0xcd6), (0xd3e, 0xd3e), (0xd4e, 0xd4e), (0xd57, 0xd57), (0xdcf, 0xdcf),
  (0xddf, 0xddf), (0x1160, 0x11ff), (0x1715, 0x1715), (0x1734, 0x1734), (0x180e, 0x180e),
  (0x1b35, 0x1b35), (0x1b3b, 0x1b3b), (0x1b3d, 0x1b3d), (0x1b43, 0x1b44), (0x1baa, 0x1baa),
  (0x1bf2, 0x1bf3), (0x200c, 0x200d), (0x2065, 0x2069), (0x302e, 0x302f), (0x3164, 0x3164),
  (0xa8fa, 0xa8fa), (0xa953, 0xa953), (0xa9c0, 0xa9c0), (0xd7b0, 0xd7c6), (0xd7cb, 0xd7fb),
  (0xffa0, 0xffa0), (0xfff0, 0xfff8), (0x111c0, 0x111c0), (0x111c2, 0x111c3), (0x11235, 0x11235),
  (0x1133e, 0x1133e), (0x1134d, 0x1134d), (0x11357, 0x11357), (0x113b8, 0x113b8),
  (0x113c2, 0x113c2), (0x113c5, 0x113c5), (0x113c7, 0x113c9), (0x113cf, 0x113cf),
  (0x113d1, 0x113d1), (0x114b0, 0x114b0), (0x114bd, 0x114bd), (0x115af, 0x115af),
  (0x116b6, 0x116b6), (0x11930, 0x11930), (0x1193d, 0x1193d), (0x1193f, 0x1193f),
  (0x11941, 0x11941), (0x11a84, 0x11a89), (0x11d46, 0x11d46), (0x11f02, 0x11f02),
  (0x11f41, 0x11f41), (0x16ff0, 0x16ff1), (0x1d165, 0x1d166), (0x1d16d, 0x1d172),
  (0x1d250, 0x1d252), (0x1d25f, 0x1d25f), (0x1d280, 0x1d281), (0xe0000, 0xe0000),
  (0xe0002, 0xe001f), (0xe0080, 0xe00ff), (0xe01f0, 0xe0fff)]

/-- Whether a character is a mark that is not shown. -/
def isHiddenMark (c : Char) : Bool := hiddenMarkRanges.contains c

/-- Whether a character takes no column and leaves the Arabic letters around it joined. -/
def isPassedOver (c : Char) : Bool := charWidth c == 0 && !partingRanges.contains c

/-! ## Letters -/

/-- The ranges of the forms of the Arabic letter alef. -/
def alefRanges : CharRanges := [
  (0x622, 0x623), (0x625, 0x625), (0x627, 0x627), (0x671, 0x673), (0x675, 0x675), (0x773, 0x774),
  (0x870, 0x882)]

/-- The ranges of the forms of the Arabic letter lam. -/
def lamRanges : CharRanges := [
  (0x644, 0x644), (0x6b5, 0x6b8), (0x76a, 0x76a), (0x8a6, 0x8a6), (0x8c7, 0x8c7)]

/-- The ranges of the Khmer letters that have a form below another letter. -/
def subscriptRanges : CharRanges := [
  (0x1780, 0x1782), (0x1784, 0x1787), (0x1789, 0x178c), (0x178e, 0x1793), (0x1795, 0x1798),
  (0x179b, 0x179d), (0x17a0, 0x17a0), (0x17a2, 0x17a2), (0x17a7, 0x17a7), (0x17ab, 0x17ac),
  (0x17af, 0x17af)]

/-- The ranges of the Tifinagh letters that form pairs. -/
def tifinaghRanges : CharRanges := [(0x2d31, 0x2d65), (0x2d6f, 0x2d6f)]

/-- The ranges of the Lisu tones that stand first in a pair. -/
def firstToneRanges : CharRanges := [(0xa4f8, 0xa4fb)]

/-- The ranges of the Lisu tones that stand last in a pair. -/
def lastToneRanges : CharRanges := [(0xa4fc, 0xa4fd)]

/-! ## Signs in the making -/

/-- The part of a sign that has been read from the end. Where it matters, `joined` tells whether a
joiner stands in front. -/
inductive Ligature
  /-- An Arabic alef, to which a lam may be joined. -/
  | alef
  /-- A Hebrew lamed, to which an alef may be joined. -/
  | lamed (joined : Bool)
  /-- A Buginese ya, to which a vowel sign and its letter may be joined. -/
  | ya (joined : Bool)
  /-- A Buginese vowel sign that is joined to a ya. -/
  | vowelYa
  /-- An Old Turkic letter, to which another may be joined. -/
  | orkhonI (joined : Bool)
  /-- A Tifinagh letter, to which another may be joined. -/
  | tifinagh (joined : Bool)
  /-- A Tifinagh letter behind the joiner of that script. -/
  | linkedTifinagh
  /-- The last tone of a Lisu pair. -/
  | lastTone
  /-- A Khmer letter that may be put below another one. -/
  | subscript
  /-- The Kirat Rai vowel sign that others are composed with. -/
  | vowelE
  /-- That vowel sign twice, or their composition. -/
  | vowelAi
deriving DecidableEq, Repr

namespace Ligature

/-- The sign that a character may be the end of. -/
def ofChar? (c : Char) : Option Ligature :=
  if c == '\u05dc' then some (.lamed false)
  else if alefRanges.contains c then some .alef
  else if subscriptRanges.contains c then some .subscript
  else if c == '\u1a10' then some (.ya false)
  else if tifinaghRanges.contains c then some (.tifinagh false)
  else if lastToneRanges.contains c then some .lastTone
  else if c == Char.ofNat 0x10c03 then some (.orkhonI false)
  else if c == Char.ofNat 0x16d67 then some .vowelE
  else if c == Char.ofNat 0x16d68 then some .vowelAi
  else none

/-- Whether marks that are not shown and selectors may stand inside a sign. The vowel signs of Kirat Rai
are composed only where nothing stands in between. -/
def admitsMarks : Ligature → Bool
  | vowelE | vowelAi => false
  | _ => true

/-- The sign behind a joiner. -/
def behindJoiner : Ligature → Ligature
  | lamed _ => lamed true
  | ya _ => ya true
  | orkhonI _ => orkhonI true
  | tifinagh _ => tifinagh true
  | l => l

/-- What a letter in front of a sign makes of it; see `join?`. -/
def joinLetter? (l : Ligature) (c : Char) : Option (Int × Option Ligature) :=
  match l with
  | alef => if lamRanges.contains c then some (0, none) else none
  | lamed joined => if joined && c == '\u05d0' then some (0, none) else none
  | ya joined => if joined && c == '\u1a17' then some (0, some vowelYa) else none
  | vowelYa => if c == '\u1a15' then some (0, none) else none
  | orkhonI joined => if joined && c == Char.ofNat 0x10c32 then some (0, none) else none
  | tifinagh joined =>
    if c == '\u2d7f' then some (1, some linkedTifinagh)
    else if joined && tifinaghRanges.contains c then some (0, none)
    else none
  -- the column of the joiner in between is taken back
  | linkedTifinagh => if tifinaghRanges.contains c then some (-1, none) else none
  | lastTone => if firstToneRanges.contains c then some (0, none) else none
  -- a letter below another one takes no column
  | subscript => if c == '\u17d2' then some (-1, none) else none
  | vowelE =>
    if c == Char.ofNat 0x16d63 || c == Char.ofNat 0x16d69 then some (0, none)
    else if c == Char.ofNat 0x16d67 then some (0, some vowelAi)
    else if c == Char.ofNat 0x16d68 then some (1, some vowelE)
    else none
  | vowelAi => if c == Char.ofNat 0x16d63 then some (0, none) else none

/-- What a character in front of a sign makes of it: the columns that it adds to the text and the sign
as it then stands, without one once it is complete. `none` if the character is no part of the sign. -/
def join? (l : Ligature) (c : Char) : Option (Int × Option Ligature) :=
  if l == alef then
    if isPassedOver c then some (0, some l) else l.joinLetter? c
  else if l.admitsMarks && c == joiner then some (0, some l.behindJoiner)
  else if l.admitsMarks && isHiddenMark c then some (0, some l)
  else l.joinLetter? c

end Ligature

end FlowBubbles.Text
