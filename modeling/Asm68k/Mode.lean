import Asm68k.Bytes

/-!
Addressing modes and the groups of modes that share execution times.
-/

namespace Asm68k

inductive Mode where
  | dn
  | an
  /-- Through an address register, `(An)`. -/
  | indirect
  /-- The same with the register stepped afterwards, `(An)+`. -/
  | postIncrement
  /-- The same with the register stepped before, `-(An)`. -/
  | preDecrement
  /-- Address register and displacement, `d(An)`. -/
  | displaced
  /-- Address register, displacement and index register, `d(An,Xn)`. -/
  | indexed
  /-- Program counter and displacement, `d(PC)`. -/
  | pcDisplaced
  /-- Program counter, displacement and index register, `d(PC,Xn)`. -/
  | pcIndexed
  /-- Absolute address of one word. -/
  | absWord
  /-- Absolute address of two words. -/
  | absLong
  | registers
  | immediate
  | ccr
  | sr
  | usp
  deriving DecidableEq, Repr

namespace Mode

def all : List Mode :=
  [.dn, .an, .indirect, .postIncrement, .preDecrement, .displaced, .indexed, .pcDisplaced,
    .pcIndexed, .absWord, .absLong, .registers, .immediate, .ccr, .sr, .usp]

def name : Mode → String
  | .dn => "Dn"
  | .an => "An"
  | .indirect => "(An)"
  | .postIncrement => "(An)+"
  | .preDecrement => "-(An)"
  | .displaced => "d(An)"
  | .indexed => "d(An,ix)"
  | .pcDisplaced => "d(PC)"
  | .pcIndexed => "d(PC,ix)"
  | .absWord => "xxx.W"
  | .absLong => "xxx.L"
  | .registers => "RegList"
  | .immediate => "#xxx"
  | .ccr => "CCR"
  | .sr => "SR"
  | .usp => "USP"

/-- The name of a mode, where operands that are no effective address have none. -/
def nameOf : Option Mode → String
  | some mode => mode.name
  | none => "invalid"

/-- Whether the mode takes an extension word for its displacement or index. -/
def hasExtension : Mode → Bool
  | .displaced | .indexed | .pcDisplaced | .pcIndexed => true
  | _ => false

/-! ### Groups -/

def memory : List Mode :=
  [.indirect, .postIncrement, .preDecrement, .displaced, .indexed, .pcDisplaced, .pcIndexed,
    .absWord, .absLong]

def effective : List Mode := [.dn, .an] ++ memory ++ [.immediate]

/-- The modes that need no memory access for their operand. -/
def direct : List Mode := [.dn, .an, .immediate]

end Mode

end Asm68k
