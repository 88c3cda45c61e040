import Asm68k.Command.Arguments
import Asm68k.Command.Work

/-!
What the program answers: what it writes and the status it ends with. Two things are left out that
other packages write on their own: the help text of the argument parser, and the records of the logger.
Where such a record would tell of a failure, its message is written instead.
-/

namespace Asm68k.Command

structure Answer where
  output : Bytes := []
  errors : Bytes := []
  status : UInt32 := 0
  deriving DecidableEq, Repr

namespace Answer

def version : Answer := { output := Bytes.ofString "m68kcounter version: dev\n" }

def ofArgumentError (error : ArgumentError) : Answer :=
  { errors := error.message ++ Bytes.ofString "\n\n", status := 1 }

/-- A run that is canceled is no failure. -/
def ofError : RunError → Answer
  | .noInput => { output := Bytes.ofString "usage: m68kcounter [options] [FILE]\n\n", status := 1 }
  | .canceled => {}
  | .unresolved error =>
    if error.failure? = some .canceled then {}
    else { errors := (RunError.unresolved error).message ++ Bytes.ofString "\n", status := 1 }
  | error => { errors := error.message ++ Bytes.ofString "\n", status := 1 }

def ofResult : Except RunError Bytes → Answer
  | .ok report => { output := report }
  | .error error => ofError error

end Answer

end Asm68k.Command
