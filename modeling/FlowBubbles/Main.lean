import FlowBubbles.CommandLine.Arguments
import FlowBubbles.CommandLine.Respond

/-!
# The program

Reads the arguments and the file that they name, and prints the answer.
-/

namespace FlowBubbles.CommandLine

/-- The number of a system error; it may be reported with either sign. -/
def errorNumber (code : UInt32) : Nat := min code.toNat (0 - code).toNat

/-- The failure that the system reports. -/
def ReadFailure.ofError : IO.Error → ReadFailure
  | .noFileOrDirectory .. => .missing
  | .inappropriateType _ code text =>
    match errorNumber code with
    | 20 => .notFolder
    | 21 => .folder
    | _ => .other text
  | .invalidArgument _ code text => if errorNumber code == 36 then .nameTooLong else .other text
  | e => .other (toString e)

/-- Reads a file. -/
def readContents (path : String) : IO (Except ReadFailure String) := do
  try
    return decodeText (← IO.FS.readBinFile path)
  catch e =>
    return .error (.ofError e)

/-- Prints an answer and yields its exit code. -/
def Answer.print (a : Answer) : IO UInt32 := do
  (← IO.getStdout).putStr a.stdout
  (← IO.getStderr).putStr a.stderr
  return a.exit.toUInt32

/-- Answers a command line, in the given formats and for a given way to read the arguments. -/
def program (read : List String → Except Answer Request) (f : Formats) (args : List String) :
    IO UInt32 := do
  match read args with
  | .error answer => answer.print
  | .ok q => (q.respond f (← readContents q.file)).print

end FlowBubbles.CommandLine

open FlowBubbles.CommandLine

def main (args : List String) : IO UInt32 := program Request.ofArguments .plain args
