import Asm68k.Timing

/-!
Warning levels for slow and for long instructions.
-/

namespace Asm68k

inductive Level where
  | low
  | medium
  | high
  | veryHigh
  deriving DecidableEq, Repr

namespace Level

/-- From the cheapest to the most expensive. -/
def all : List Level := [.low, .medium, .high, .veryHigh]

def name : Level → String
  | .low => "low"
  | .medium => "med"
  | .high => "high"
  | .veryHigh => "vhigh"

/-- The name of the level with the given rank, counted from zero. -/
def nameOfRank (rank : Int) : String :=
  if rank < 0 then "unknown"
  else match all[rank.toNat]? with
    | some level => level.name
    | none => "unknown"

def ofClock (clock : Int64) : Level :=
  if 30 < clock then .veryHigh
  else if 20 < clock then .high
  else if 12 ≤ clock then .medium
  else .low

/-- The level of an encoded length in bytes. -/
def ofLength (bytes : Int64) : Level :=
  if 6 < bytes then .veryHigh
  else if 4 < bytes then .high
  else if bytes = 4 then .medium
  else .low

end Level

def Timing.level (t : Timing) : Level := Level.ofClock t.clock

end Asm68k
