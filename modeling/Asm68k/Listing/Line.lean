import Asm68k.Timing.Times

/-!
Resolved source lines. The line of a macro invocation, and the one that ends a repeated block, has
the lines of the expansion below it.
-/

namespace Asm68k

structure LineInfo where
  text : Bytes
  bytes : Int64
  /-- The line lies in memory that is reserved and not stored. -/
  bss : Bool
  times : Option Times
  deriving DecidableEq, Repr

inductive Line where
  | plain (info : LineInfo)
  | expanded (info : LineInfo) (body : List Line)

namespace Line

def info : Line → LineInfo
  | .plain info => info
  | .expanded info _ => info

def text (line : Line) : Bytes := line.info.text

def bytes (line : Line) : Int64 := line.info.bytes

def bss (line : Line) : Bool := line.info.bss

def times (line : Line) : Option Times := line.info.times

/-- A line without size and time. -/
def blank (text : Bytes) : Line := .plain ⟨text, 0, false, none⟩

end Line

end Asm68k
