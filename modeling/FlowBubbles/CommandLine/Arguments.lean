import FlowBubbles.CommandLine.Request

/-!
# Command-line arguments

One way to make a request of the arguments. Switches are on or off, settings carry a value, and each
is given at most once. The two switches that go with every command may also stand before the command,
on one side of it or on both.
-/

namespace FlowBubbles.CommandLine

/-! ## Names of commands and options -/

/-- The names of the commands. -/
inductive CommandName
  | analyze
  | acyclic
  | domtree
  | dot
deriving DecidableEq, Repr

/-- The options that are on or off. -/
inductive Switch
  | json
  | verbose
  | allowUnreachable
  | showSuperRoot
deriving DecidableEq, Repr

/-- The options that carry a value. -/
inductive Setting
  | entry
  | maxPasses
  | stage
deriving DecidableEq, Repr

/-- The command of a name. -/
def CommandName.ofText? : String → Option CommandName
  | "analyze" => some .analyze
  | "acyclic" => some .acyclic
  | "domtree" => some .domtree
  | "dot" => some .dot
  | _ => none

/-- The stage of a name. -/
def Stage.ofText? : String → Option Stage
  | "input" => some .input
  | "acyclic" => some .acyclic
  | "domtree" => some .domtree
  | _ => none

/-- The switch of a name. -/
def Switch.ofText? : String → Option Switch
  | "json" => some .json
  | "verbose" => some .verbose
  | "allow-unreachable" => some .allowUnreachable
  | "show-super-root" => some .showSuperRoot
  | _ => none

/-- The setting of a name. -/
def Setting.ofText? : String → Option Setting
  | "entry" => some .entry
  | "max-passes" => some .maxPasses
  | "stage" => some .stage
  | _ => none

/-- Whether a switch may stand before the command; such a switch goes with every command. -/
def Switch.isGlobal : Switch → Bool
  | json | verbose => true
  | _ => false

/-- Whether a switch goes with a command. -/
def Switch.goesWith (s : Switch) : CommandName → Bool
  | .analyze => s != .showSuperRoot
  | .domtree => true
  | _ => s.isGlobal

/-- Whether a setting goes with a command. -/
def Setting.goesWith (s : Setting) : CommandName → Bool
  | .analyze => s != .stage
  | .acyclic => s == .maxPasses
  | .domtree => s == .entry
  | .dot => s != .maxPasses

/-! ## Values of options -/

/-- What the arguments give. -/
structure Given where
  json : Bool := false
  verbose : Bool := false
  allowUnreachable : Bool := false
  showSuperRoot : Bool := false
  entry : Option String := none
  maxPasses : Option Nat := none
  stage : Option Stage := none
  file : Option String := none
deriving DecidableEq, Repr

/-- The largest count that can be given. -/
def maxCount : Nat := UInt64.size - 1

/-- A count in decimal digits, with an optional plus sign. -/
def count? (s : String) : Option Nat :=
  let digits := match s.toList with
    | '+' :: rest => rest
    | cs => cs
  if digits.isEmpty || !digits.all Char.isDigit then none
  else
    let n := digits.foldl (fun n c => 10 * n + (c.toNat - '0'.toNat)) 0
    if n ≤ maxCount then some n else none

namespace Given

/-- Turns a switch on, if it is off. -/
def turnOn (g : Given) : Switch → Option Given
  | .json => if g.json then none else some { g with json := true }
  | .verbose => if g.verbose then none else some { g with verbose := true }
  | .allowUnreachable =>
    if g.allowUnreachable then none else some { g with allowUnreachable := true }
  | .showSuperRoot => if g.showSuperRoot then none else some { g with showSuperRoot := true }

/-- Gives a setting its value, if it has none and the value is of the right form. -/
def assign (g : Given) (value : String) : Setting → Option Given
  | .entry => if g.entry.isSome then none else some { g with entry := some value }
  | .maxPasses =>
    if g.maxPasses.isSome then none
    else (count? value).map fun n => { g with maxPasses := some n }
  | .stage =>
    if g.stage.isSome then none
    else (Stage.ofText? value).map fun s => { g with stage := some s }

/-- What the arguments give when these switches stand before the command as well. -/
def withGlobal (g before : Given) : Given :=
  { g with json := g.json || before.json, verbose := g.verbose || before.verbose }

/-- Names the file, if there is none yet. An empty name is no file. -/
def nameFile (g : Given) (file : String) : Option Given :=
  if g.file.isSome || file.isEmpty then none else some { g with file := some file }

end Given

/-! ## Reading the arguments -/

/-- The forms of an argument. -/
inductive Argument
  /-- Two dashes alone: only files follow. -/
  | endOfOptions
  /-- A long option, with the value after its equals sign if it has one. -/
  | long (name : String) (value : Option String)
  /-- Short options behind one dash. -/
  | short (names : List Char)
  /-- Anything else, a single dash included. -/
  | plain (text : String)
deriving DecidableEq, Repr

/-- The form of an argument. -/
def Argument.ofText (text : String) : Argument :=
  match text.toList with
  | ['-', '-'] => .endOfOptions
  | '-' :: '-' :: body =>
    match body.dropWhile (· != '=') with
    | [] => .long (String.ofList body) none
    | _ :: value => .long (String.ofList (body.takeWhile (· != '='))) (some (String.ofList value))
  | '-' :: c :: rest => .short (c :: rest)
  | _ => .plain text

/-- The answer to a request for the version. -/
def versionAnswer : Answer := ⟨0, "domibubble 0.1.0\n", ""⟩

/-- How the program is used. -/
def usage : String := "usage: analyze | acyclic | domtree | dot, with one FILE\n"

/-- The answer to a request for help. -/
def helpAnswer : Answer := ⟨0, usage, ""⟩

/-- The answer to a command line that asks for nothing that can be done. -/
def usageAnswer : Answer := ⟨2, "", usage⟩

/-- A value that has to be there. -/
def orUsage {α : Type} (x : Option α) : Except Answer α :=
  match x with
  | none => .error usageAnswer
  | some a => .ok a

/-- Reads the arguments after the end of the options. -/
def readFiles (given : Given) (args : List String) : Except Answer Given :=
  args.foldlM (fun given file => orUsage (given.nameFile file)) given

/-- Reads short options. A text that is asked for is shown whatever follows; the version can be
asked for only before the command. -/
def readShort (beforeCommand : Bool) : Given → List Char → Except Answer Given
  | given, [] => .ok given
  | given, c :: rest => do
    if c = 'h' then .error helpAnswer
    else if c = 'V' ∧ beforeCommand then .error versionAnswer
    else if c = 'v' then readShort beforeCommand (← orUsage (given.turnOn .verbose)) rest
    else .error usageAnswer

/-- Turns a switch on that stands behind a command. -/
def readSwitch (command : CommandName) (given : Given) (switch : Switch) :
    Except Answer Given :=
  if switch.goesWith command then orUsage (given.turnOn switch) else .error usageAnswer

/-- Gives a setting its value behind a command. -/
def readSetting (command : CommandName) (given : Given) (setting : Setting) (value : String) :
    Except Answer Given :=
  if setting.goesWith command then orUsage (given.assign value setting) else .error usageAnswer

/-- Reads the arguments behind a command. -/
def readOptions (command : CommandName) : Given → List String → Except Answer Given
  | given, [] => .ok given
  | given, arg :: rest => do
    match Argument.ofText arg with
    | .endOfOptions => readFiles given rest
    | .plain file => readOptions command (← orUsage (given.nameFile file)) rest
    | .short names => readOptions command (← readShort false given names) rest
    | .long "help" none => .error helpAnswer
    | .long name value =>
      match Switch.ofText? name, Setting.ofText? name, value with
      | some switch, _, none => readOptions command (← readSwitch command given switch) rest
      | none, some setting, some value =>
        readOptions command (← readSetting command given setting value) rest
      | none, some setting, none =>
        match rest with
        | [] => .error usageAnswer
        | value :: rest =>
          match Argument.ofText value with
          | .plain value => readOptions command (← readSetting command given setting value) rest
          | _ => .error usageAnswer
      | _, _, _ => .error usageAnswer

/-- Completes a request; the file and, for drawings, the stage are required. -/
def complete (command : CommandName) (given : Given) : Except Answer Request := do
  let file ← orUsage given.file
  let options : GlobalOptions := { json := given.json, verbose := given.verbose }
  match command with
  | .analyze =>
    return ⟨.analyze file given.entry given.allowUnreachable given.maxPasses, options⟩
  | .acyclic => return ⟨.acyclic file given.maxPasses, options⟩
  | .domtree =>
    return ⟨.domtree file given.entry given.allowUnreachable given.showSuperRoot, options⟩
  | .dot => return ⟨.dot file (← orUsage given.stage) given.entry, options⟩

/-- Reads what is behind the command for help: nothing, or one command. -/
def readTopic : List String → Answer
  | [] | ["help"] => helpAnswer
  | [name] => if (CommandName.ofText? name).isSome then helpAnswer else usageAnswer
  | _ => usageAnswer

/-- Reads the arguments from the first one on, up to the command and then behind it. -/
def readFrom : Given → List String → Except Answer Request
  | _, [] => .error usageAnswer
  | given, arg :: rest => do
    match Argument.ofText arg with
    | .endOfOptions | .long _ (some _) => .error usageAnswer
    | .plain "help" => .error (readTopic rest)
    | .plain name =>
      let command ← orUsage (CommandName.ofText? name)
      let behind ← readOptions command {} rest
      complete command (behind.withGlobal given)
    | .short names => readFrom (← readShort true given names) rest
    | .long "help" none => .error helpAnswer
    | .long "version" none => .error versionAnswer
    | .long name none =>
      let switch ← orUsage (Switch.ofText? name)
      if switch.isGlobal then readFrom (← orUsage (given.turnOn switch)) rest
      else .error usageAnswer

/-- The request that a list of arguments makes. The error is an answer that needs no request. -/
def Request.ofArguments (args : List String) : Except Answer Request := readFrom {} args

end FlowBubbles.CommandLine
