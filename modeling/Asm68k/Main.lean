import Asm68k.Command.Run

/-!
The command line. Interrupts are not handled.
-/

namespace Asm68k.Command

/-- The contents of a file, or why there are none. -/
def readFile (name : String) : IO (Except FileFault Bytes) := do
  try
    return .ok (← IO.FS.readBinFile name).toList
  catch
    | .noFileOrDirectory .. => return .error .missing
    | .inappropriateType .. => return .error .isDirectory
    | e => return .error (.other (Bytes.ofString (toString e)))

/-- All of standard input, and why it ends if that is a fault. -/
def readInput (stdin : IO.FS.Stream) : IO (Bytes × Option Bytes) := do
  try
    return ((← stdin.readBinToEnd).toList, none)
  catch e => return ([], some (Bytes.ofString (toString e)))

/-- What surrounds this process; standard input is read only where it is wanted. -/
def surroundings (input : Bytes) : IO Surroundings := do
  let stdin ← IO.getStdin
  let inputIsTerminal ← stdin.isTty
  let wantsInput := input == Bytes.ofString "-" || (input.isEmpty && !inputIsTerminal)
  let (standardInput, inputFault) ← if wantsInput then readInput stdin else pure ([], none)
  let file ← readFile ((String.fromUTF8? (ByteArray.mk input.toArray)).getD "")
  return {
    fileContents := fun _ => file
    standardInput
    inputFault
    inputIsTerminal
    outputIsTerminal := ← (← IO.getStdout).isTty
    patience := none
    refusal := none }

def write (stream : IO.FS.Stream) (text : Bytes) : IO Unit := do
  stream.write (ByteArray.mk text.toArray)
  stream.flush

def send (answer : Answer) : IO UInt32 := do
  write (← IO.getStdout) answer.output
  write (← IO.getStderr) answer.errors
  return answer.status

end Asm68k.Command

open Asm68k Command in
def main (arguments : List String) : IO UInt32 := do
  let program := (← IO.appPath).toString
  match Options.ofArguments ((program :: arguments).map Bytes.ofString) with
  | .error e => send (.ofArgumentError e)
  | .ok options =>
    if options.version then send .version
    else send (.ofResult (run options (← surroundings options.input)))
