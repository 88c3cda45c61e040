import Asm68k.Timing

/-!
The times of an instruction, one for each outcome, and how they were calculated.
-/

namespace Asm68k

/-- How often an instruction repeats its unit. -/
inductive Repetitions where
  | exactly (n : Int64)
  | between (low high : Int64)
  deriving DecidableEq, Repr

structure Calculation where
  base : List Timing
  address : Option Timing
  perUnit : Option Timing
  repetitions : Option Repetitions
  deriving DecidableEq, Repr

structure Times where
  values : List Timing
  /-- The names of the outcomes, where there are several. -/
  labels : List Bytes
  calculation : Option Calculation
  deriving DecidableEq, Repr

namespace Times

/-- The smallest of each component over all outcomes. -/
def least? (times : Times) : Option Timing :=
  match times.values with
  | [] => none
  | value :: values => some (values.foldl Timing.inf value)

/-- The largest of each component over all outcomes. -/
def greatest? (times : Times) : Option Timing :=
  match times.values with
  | [] => none
  | value :: values => some (values.foldl Timing.sup value)

/-- Times between two bounds, which are one where they agree. -/
def ofBounds (least greatest : Timing) : Times :=
  if least = greatest then ⟨[least], [], none⟩
  else ⟨[least, greatest], [Bytes.ofString "Min", Bytes.ofString "Max"], none⟩

end Times

namespace Calculation

/-- The times without the address part. A range of repetitions leaves its two bounds. -/
def repeated (c : Calculation) : List Timing :=
  match c.perUnit, c.repetitions with
  | some unit, some (.exactly n) => c.base.map (· + unit.scale n)
  | some unit, some (.between low high) =>
    match c.base with
    | [] => []
    | base :: _ => [base + unit.scale low, base + unit.scale high]
  | _, _ => c.base

def values (c : Calculation) : List Timing :=
  match c.address with
  | none => c.repeated
  | some address => c.repeated.map (· + address)

end Calculation

end Asm68k
