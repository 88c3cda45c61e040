import Asm68k.Command.Options

/-!
The work of the command: read a source, resolve it, and report on it.
-/

namespace Asm68k.Command

inductive FileFault where
  | missing
  | isDirectory
  | other (reason : Bytes)
  deriving DecidableEq, Repr

def FileFault.message (name : Bytes) : FileFault → Bytes
  | .missing => Bytes.ofString "open " ++ name ++ Bytes.ofString ": no such file or directory"
  | .isDirectory => Bytes.ofString "read " ++ name ++ Bytes.ofString ": is a directory"
  | .other reason => reason

inductive RunError where
  | badParts (unknown : Report.Include.Unknown)
  | unreadable (name : Bytes) (fault : FileFault)
  | inputUnreadable (reason : Bytes)
  /-- No file is named, and standard input is a terminal. -/
  | noInput
  | unresolved (error : Resolver.Error)
  | canceled
  | unwritable (error : Report.WriteError)
  deriving DecidableEq, Repr

def RunError.message : RunError → Bytes
  | .badParts unknown => Bytes.ofString "parsing include list: " ++ unknown.message
  | .unreadable name fault =>
    Bytes.ofString "reading file '" ++ name ++ Bytes.ofString "': " ++ fault.message name
  | .inputUnreadable reason => Bytes.ofString "reading stdin: " ++ reason
  | .noInput => Bytes.ofString "no input file given and stdin is a terminal"
  | .unresolved error => Bytes.ofString "parsing source: " ++ error.message
  | .canceled => Resolver.Failure.canceled.message
  | .unwritable error => Bytes.ofString "formatting output: " ++ error.message

/-- What a run finds around it. -/
structure Surroundings where
  fileContents : Bytes → Except FileFault Bytes
  standardInput : Bytes
  /-- Why standard input cannot be read, if it cannot. -/
  inputFault : Option Bytes := none
  inputIsTerminal : Bool
  outputIsTerminal : Bool
  /-- How often the run may ask before it is told to stop. -/
  patience : Option Nat
  /-- Why output is refused, if it is. -/
  refusal : Option Bytes

def Surroundings.allInput (around : Surroundings) : Except RunError Bytes :=
  match around.inputFault with
  | none => .ok around.standardInput
  | some reason => .error (.inputUnreadable reason)

/-- The named file, or standard input for a dash or no name. -/
def Surroundings.source (around : Surroundings) (name : Bytes) : Except RunError Bytes :=
  if name ≠ [] && name ≠ Bytes.ofString "-" then
    (around.fileContents name).mapError (.unreadable name)
  else if name = [] && around.inputIsTerminal then .error .noInput
  else around.allInput

def Surroundings.accept (around : Surroundings) (format : Report.Format) (output : Bytes) :
    Except RunError Bytes :=
  match around.refusal with
  | none => .ok output
  | some reason => .error (.unwritable ⟨format, reason⟩)

def run (options : Options) (around : Surroundings) : Except RunError Bytes := do
  let parts ← (Report.Include.ofList options.parts).mapError .badParts
  let source ← around.source options.input
  let outcome := Resolver.resolve options.limits around.patience source
  let lines ← outcome.result.mapError .unresolved
  -- the work may have been canceled just as it was done
  if Resolver.Resolution.isCanceled around.patience outcome.polls then throw .canceled
  let format := options.format around.outputIsTerminal
  around.accept format (Report.render format parts lines (Totals.ofLines lines))

end Asm68k.Command
