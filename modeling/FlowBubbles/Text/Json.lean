/-!
# Structured output

Values of the JSON format, and their text with one entry a line, indented by two spaces a level.
-/

namespace FlowBubbles.Text

/-- A JSON value. The fields of a record keep their order. -/
inductive Json
  | null
  | flag (b : Bool)
  | number (n : Nat)
  | text (s : String)
  | list (items : List Json)
  | record (fields : List (String × Json))

namespace Json

/-- A character code in four hexadecimal digits. -/
def codeEscape (c : Char) : String :=
  let digits := Nat.toDigits 16 c.toNat
  "\\u" ++ String.ofList (List.replicate (4 - digits.length) '0' ++ digits)

/-- The written form of a character between quotes. Only quotes, backslashes and controls are
escaped. -/
def charText (c : Char) : String :=
  match c with
  | '"' => "\\\""
  | '\\' => "\\\\"
  | '\n' => "\\n"
  | '\r' => "\\r"
  | '\t' => "\\t"
  | '\x08' => "\\b"
  | '\x0c' => "\\f"
  | c => if c.toNat < 0x20 then codeEscape c else c.toString

/-- The written form of a text. -/
def quote (s : String) : String :=
  "\"" ++ s.toList.foldl (fun acc c => acc ++ charText c) "" ++ "\""

/-- A line break and the indent of a level. -/
def newLine (level : Nat) : String := "\n" ++ String.ofList (List.replicate (2 * level) ' ')

/-- Entries between an opening and a closing sign, one a line; without entries, just the signs. -/
def block (level : Nat) (opening closing : String) (entries : List String) : String :=
  match entries with
  | [] => opening ++ closing
  | _ =>
    opening ++ newLine (level + 1) ++ ("," ++ newLine (level + 1)).intercalate entries ++
      newLine level ++ closing

mutual

/-- The text of a value that starts at a level of indentation. -/
def pretty (level : Nat) : Json → String
  | null => "null"
  | flag b => if b then "true" else "false"
  | number n => toString n
  | text s => quote s
  | list items => block level "[" "]" (prettyItems (level + 1) items)
  | record fields => block level "\x7b" "\x7d" (prettyFields (level + 1) fields)

/-- The texts of the items of a list. -/
def prettyItems (level : Nat) : List Json → List String
  | [] => []
  | item :: rest => pretty level item :: prettyItems level rest

/-- The texts of the fields of a record. -/
def prettyFields (level : Nat) : List (String × Json) → List String
  | [] => []
  | (name, value) :: rest =>
    (quote name ++ ": " ++ pretty level value) :: prettyFields level rest

end

end Json

end FlowBubbles.Text
