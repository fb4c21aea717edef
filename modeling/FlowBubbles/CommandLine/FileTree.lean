import FlowBubbles.Text.Blank

/-!
# Files and folders

A path leads from one folder of a tree to another or to a file. Here are such trees, the walk along a
path, and the reasons for which a path leads to no text.
-/

namespace FlowBubbles.CommandLine

/-! ## Failures -/

/-- Why a file cannot be read as a text. -/
inductive ReadFailure
  /-- A folder on the way has no entry of the name. -/
  | missing
  /-- The path goes on behind a file. -/
  | notFolder
  /-- The path leads to a folder. -/
  | folder
  /-- The path, or a name in it, is longer than can be looked up. -/
  | nameTooLong
  /-- The bytes of the file encode no text. -/
  | notText
  /-- Something else, in the words of the system. -/
  | other (text : String)
deriving DecidableEq, Repr

/-- The wording of a read failure. -/
def ReadFailure.message : ReadFailure → String
  | missing => "No such file or directory (os error 2)"
  | notFolder => "Not a directory (os error 20)"
  | folder => "Is a directory (os error 21)"
  | nameTooLong => "File name too long (os error 36)"
  | notText => "stream did not contain valid UTF-8"
  | other text => text

/-- The text that the bytes of a file encode. -/
def decodeText (bytes : ByteArray) : Except ReadFailure String :=
  match String.fromUTF8? bytes with
  | some text => .ok text
  | none => .error .notText

/-! ## Trees and paths -/

/-- A file, or a folder with the names of its entries. -/
inductive FileTree
  | file (bytes : ByteArray)
  | folder (entries : List (String × FileTree))

/-- A place in a tree: what stands there, and the folders around it from the nearest to the root. -/
structure Place where
  content : FileTree
  around : List FileTree := []

/-- The number of bytes of the longest name that can be looked up. -/
def longestName : Nat := 255

/-- The number of bytes of the longest path that can be followed. -/
def longestPath : Nat := 4095

namespace Place

/-- The outermost folder around a place. -/
def root (p : Place) : Place :=
  match p.around.getLast? with
  | some outermost => { content := outermost }
  | none => p

/-- The place of a name in a folder. No name and one dot lead nowhere else, and two dots lead to the
folder around, of which the root has none but itself. -/
def enter (p : Place) (name : String) : Except ReadFailure Place :=
  match p.content with
  | .file _ => .error .notFolder
  | .folder entries =>
    if name == "" || name == "." then .ok p
    else if name == ".." then
      match p.around with
      | [] => .ok p
      | outer :: around => .ok ⟨outer, around⟩
    else if longestName < name.utf8ByteSize then .error .nameTooLong
    else match entries.lookup name with
      | none => .error .missing
      | some content => .ok ⟨content, p.content :: p.around⟩

/-- The place to which a path leads. A path that starts with a slash starts from the root. -/
def follow (p : Place) (path : String) : Except ReadFailure Place :=
  if path == "" then .error .missing
  else if longestPath < path.utf8ByteSize then .error .nameTooLong
  else
    let names := (Text.pieces (· == '/') path.toList).map String.ofList
    names.foldlM enter (if path.toList.head? == some '/' then p.root else p)

/-- The text of the file to which a path leads. -/
def readText (p : Place) (path : String) : Except ReadFailure String :=
  match p.follow path with
  | .error e => .error e
  | .ok found =>
    match found.content with
    | .folder _ => .error .folder
    | .file bytes => decodeText bytes

end Place

end FlowBubbles.CommandLine
