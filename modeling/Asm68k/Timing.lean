import Asm68k.Decimal

/-!
Execution times: clock periods and bus cycles. All arithmetic is that of 64-bit words.
-/

namespace Asm68k

structure Timing where
  clock : Int64
  read : Int64
  write : Int64
  deriving DecidableEq, Repr

namespace Timing

def zero : Timing := ⟨0, 0, 0⟩

instance : Inhabited Timing := ⟨zero⟩

def add (t u : Timing) : Timing := ⟨t.clock + u.clock, t.read + u.read, t.write + u.write⟩

instance : Add Timing := ⟨add⟩

/-- Every component `n` times. -/
def scale (n : Int64) (t : Timing) : Timing := ⟨t.clock * n, t.read * n, t.write * n⟩

/-- Each component taken from the smaller side. -/
def inf (t u : Timing) : Timing := ⟨min t.clock u.clock, min t.read u.read, min t.write u.write⟩

/-- Each component taken from the larger side. -/
def sup (t u : Timing) : Timing := ⟨max t.clock u.clock, max t.read u.read, max t.write u.write⟩

/-- The usual notation `clock(read/write)`. -/
def text (t : Timing) : Bytes :=
  Decimal.ofInt64 t.clock ++ ['('.toUInt8] ++ Decimal.ofInt64 t.read ++ ['/'.toUInt8] ++
    Decimal.ofInt64 t.write ++ [')'.toUInt8]

end Timing

end Asm68k
