import FlowBubbles.Text.Unprintable

/-!
# Quoted texts in messages

A text in a message stands between double quotes. Quotes, backslashes and the common controls have
short escapes, any other character without a visible form is written as its code point in
hexadecimal, and all else is written as it is.
-/

namespace FlowBubbles.Text

/-- The code point of a character as an escape in hexadecimal. -/
def codePointEscape (c : Char) : String :=
  "\\u\x7b" ++ String.ofList (Nat.toDigits 16 c.toNat) ++ "\x7d"

/-- The written form of a character between quotes. -/
def quotedChar (c : Char) : String :=
  match c with
  | '"' => "\\\""
  | '\\' => "\\\\"
  | '\n' => "\\n"
  | '\r' => "\\r"
  | '\t' => "\\t"
  | '\x00' => "\\0"
  | c => if isUnprintable c then codePointEscape c else c.toString

/-- The quoted form of a text. -/
def quoted (s : String) : String :=
  "\"" ++ s.toList.foldl (fun acc c => acc ++ quotedChar c) "" ++ "\""

end FlowBubbles.Text
