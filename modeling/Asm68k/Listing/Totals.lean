import Asm68k.Listing.Line

/-!
Totals over resolved lines. Bytes are counted at the lines without an expansion, because an
expansion may switch sections part way; times are those that the lines themselves carry.
-/

namespace Asm68k

/-- Numbers of bytes: all, and those in reserved and in stored memory. -/
structure Space where
  bytes : Int64
  bss : Int64
  object : Int64
  deriving DecidableEq, Repr

namespace Space

def zero : Space := ⟨0, 0, 0⟩

def add (s t : Space) : Space := ⟨s.bytes + t.bytes, s.bss + t.bss, s.object + t.object⟩

instance : Add Space := ⟨add⟩

def ofBytes (bytes : Int64) (bss : Bool) : Space :=
  if bss then ⟨bytes, bytes, 0⟩ else ⟨bytes, 0, bytes⟩

end Space

namespace Line

mutual

/-- Adds the bytes of a line. -/
def addSpace (space : Space) : Line → Space
  | .plain info => space + Space.ofBytes info.bytes info.bss
  | .expanded _ body => addSpaces space body

def addSpaces (space : Space) : List Line → Space
  | [] => space
  | line :: lines => addSpaces (line.addSpace space) lines

end

end Line

structure Totals where
  /-- The time depends on the outcomes of instructions. -/
  isRange : Bool
  least : Timing
  greatest : Timing
  space : Space
  deriving DecidableEq, Repr

namespace Totals

/-- Adds the bounds of the times of a line, if it has any. -/
def addTimes (bounds : Timing × Timing) (line : Line) : Timing × Timing :=
  match line.times.bind Times.least?, line.times.bind Times.greatest? with
  | some least, some greatest => (bounds.1 + least, bounds.2 + greatest)
  | _, _ => bounds

def ofLines (lines : List Line) : Totals :=
  let (least, greatest) := lines.foldl addTimes (Timing.zero, Timing.zero)
  ⟨least != greatest, least, greatest, Line.addSpaces .zero lines⟩

end Totals

namespace Line

/-- The line of an expansion: the bytes of its body, and the bounds of the body's time if it takes
any. -/
def ofExpansion (text : Bytes) (bss : Bool) (body : List Line) : Line :=
  let totals := Totals.ofLines body
  let times :=
    if totals.least.clock = 0 then none else some (Times.ofBounds totals.least totals.greatest)
  .expanded ⟨text, totals.space.bytes, bss, times⟩ body

end Line

end Asm68k
