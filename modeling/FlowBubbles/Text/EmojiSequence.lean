import FlowBubbles.Text.Emoji
import FlowBubbles.Text.Ligature

/-!
# Emoji that are shown as one picture

Joiners make one picture of several emoji, a skin tone belongs to the emoji before it, and two halves
make a flag. A text is read from its end here: an `EmojiSequence` is the part of a picture that has
been read, and `EmojiSequence.join?` says what the character in front of it adds. A picture takes two
columns, which are counted where its last emoji is read.
-/

namespace FlowBubbles.Text

/-- The part of a picture that has been read from the end. The last six stand in front of a joiner and
the picture behind it, and may be the end of an emoji that belongs to it. -/
inductive EmojiSequence
  /-- A whole emoji. -/
  | emoji
  /-- A skin tone. -/
  | skinTone
  /-- Half of a flag. -/
  | flagHalf
  /-- Several halves of flags. -/
  | flagHalves
  /-- A joiner in front of an emoji. -/
  | joined
  /-- The frame of a key, joined. -/
  | joinedKeycap
  /-- Half of a flag, joined. -/
  | joinedHalf
  /-- An even number of halves of flags, joined. -/
  | joinedEven
  /-- An odd number of halves of flags, three or more, joined. -/
  | joinedOdd
  /-- The end of a row of tags, joined, with so many letters. -/
  | letterTags (count : Nat)
  /-- The end of a row of tags, joined, with so many digits in front. -/
  | digitTags (count : Nat)
deriving DecidableEq, Repr

namespace EmojiSequence

open Emoji

/-- The picture that a character may be the end of. -/
def ofChar? (c : Char) : Option EmojiSequence :=
  if isFlagHalf c then some flagHalf
  else if isSkinTone c then some skinTone
  else if isPicture c then some emoji
  else none

/-- What a character in front of a joiner and a picture makes of them; see `join?`. -/
def joinToJoined? (c : Char) : Option (Int × EmojiSequence) :=
  if c == keycap then some (0, joinedKeycap)
  else if isFlagHalf c then some (1, joinedHalf)
  else if isSkinTone c then some (0, skinTone)
  else if c == endTag then some (0, letterTags 0)
  else if isPicture c then some (0, emoji)
  else none

/-- What a character in front of a picture makes of it: the columns that it adds to the text and the
picture as it then stands. `none` if the character is no part of the picture. -/
def join? (e : EmojiSequence) (c : Char) : Option (Int × EmojiSequence) :=
  match e with
  | emoji => if c == joiner then some (0, joined) else none
  | skinTone =>
    if isTonable c then some (0, emoji)
    else if c == joiner then some (0, joined)
    else none
  | flagHalf => if isFlagHalf c then some (1, flagHalves) else none
  | flagHalves =>
    if isFlagHalf c then some (1, flagHalves)
    else if c == joiner then some (0, joined)
    else none
  | joined => joinToJoined? c
  | joinedKeycap => none
  -- the flag that two halves make belongs to the picture, and their columns are taken back
  | joinedHalf => if isFlagHalf c then some (-1, joinedEven) else none
  -- one more half shifts all pairs, and the last half stands apart from the picture
  | joinedEven =>
    if isFlagHalf c then some (3, joinedOdd)
    else if c == joiner then some (0, joined)
    else none
  | joinedOdd =>
    if isFlagHalf c then some (-1, joinedEven)
    else if c == joiner then some (0, joined)
    else none
  -- a region is named by three to six letters, or by three digits and up to four letters
  | letterTags count =>
    if isLetterTag c && count < 6 then some (0, letterTags (count + 1))
    else if isDigitTag c && count ≤ 4 then some (0, digitTags 1)
    else if c == blackFlag && 3 ≤ count then some (0, emoji)
    else none
  | digitTags count =>
    if isDigitTag c && count < 3 then some (0, digitTags (count + 1))
    else if c == blackFlag && count == 3 then some (0, emoji)
    else none

/-- Whether an emoji whose picture is asked for belongs to the picture behind it. -/
def takesPicture : EmojiSequence → Bool
  | joined | joinedKeycap => true
  | _ => false

end EmojiSequence

end FlowBubbles.Text
