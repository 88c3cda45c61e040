import Asm68k.Timing
import Asm68k.Timing.Key

/-!
Rows of the table of execution times. A row is for several mnemonics and sizes at once, and one of
its operands may be any mode of a group; then the time to calculate the operand's address comes on
top.
-/

namespace Asm68k.Timing

/-- The time to calculate an effective address and fetch from it, for operations on bytes and words
or on long words. -/
def addressTime (long : Bool) : Mode → Timing
  | .indirect | .postIncrement | .immediate => if long then ⟨8, 2, 0⟩ else ⟨4, 1, 0⟩
  | .preDecrement => if long then ⟨10, 2, 0⟩ else ⟨6, 1, 0⟩
  | .displaced | .absWord | .pcDisplaced => if long then ⟨12, 3, 0⟩ else ⟨8, 2, 0⟩
  | .indexed | .pcIndexed => if long then ⟨14, 3, 0⟩ else ⟨10, 2, 0⟩
  | .absLong => if long then ⟨16, 4, 0⟩ else ⟨12, 3, 0⟩
  | .dn | .an | .registers | .ccr | .sr | .usp => zero

/-- The same for the first operand, where some instructions fetch an absolute address in other
times. -/
def sourceTime (mnemonic : Mnemonic) (long : Bool) (mode : Mode) : Timing :=
  match mnemonic, mode with
  | .tas, .absWord => ⟨8, 1, 0⟩
  | .tas, .absLong | .chk, .absLong | .muls, .absLong | .mulu, .absLong => ⟨12, 2, 0⟩
  | _, mode => addressTime long mode

structure Entry where
  /-- One time for each outcome, such as a branch taken and not taken. -/
  base : List Timing
  address : Option Timing
  /-- The time for each unit of what the instruction repeats. -/
  perUnit : Option Timing
  deriving DecidableEq, Repr

/-- What an operand of a row may be. -/
inductive Slot where
  | only (mode : Mode)
  | among (modes : List Mode)

namespace Slot

def modes : Slot → List Mode
  | .only mode => [mode]
  | .among modes => modes

def choices : List Slot → List (List Mode)
  | [] => [[]]
  | slot :: slots => slot.modes.flatMap fun mode => (choices slots).map (mode :: ·)

def dn : Slot := .only .dn

def an : Slot := .only .an

def indirect : Slot := .only .indirect

def postIncrement : Slot := .only .postIncrement

def preDecrement : Slot := .only .preDecrement

def displaced : Slot := .only .displaced

def indexed : Slot := .only .indexed

def pcDisplaced : Slot := .only .pcDisplaced

def pcIndexed : Slot := .only .pcIndexed

def absWord : Slot := .only .absWord

def absLong : Slot := .only .absLong

def registers : Slot := .only .registers

def immediate : Slot := .only .immediate

def ccr : Slot := .only .ccr

def sr : Slot := .only .sr

def usp : Slot := .only .usp

def effective : Slot := .among Mode.effective

def direct : Slot := .among Mode.direct

def memory : Slot := .among Mode.memory

end Slot

structure Row where
  mnemonics : List Mnemonic
  sizes : List (Option Size)
  operands : List Slot
  base : List Timing
  perUnit : Option Timing

namespace Row

/-- The address time of a form: that of the operand which may be any mode of a group. -/
def address? (mnemonic : Mnemonic) (long : Bool) : List Slot → List Mode → Option Timing
  | .among _ :: _, mode :: _ => some (sourceTime mnemonic long mode)
  | _ :: .among _ :: _, _ :: mode :: _ => some (addressTime long mode)
  | _, _ => none

def entry (row : Row) (mnemonic : Mnemonic) (size : Option Size) (modes : List Mode) : Entry :=
  ⟨row.base, address? mnemonic (size == some .long) row.operands modes, row.perUnit⟩

/-- The forms that the row is for, by their keys. -/
def entries (row : Row) : List (Bytes × Entry) :=
  row.mnemonics.flatMap fun mnemonic =>
    row.sizes.flatMap fun size =>
      (Slot.choices row.operands).map fun modes =>
        (key mnemonic size (modes.map some), row.entry mnemonic size modes)

end Row

end Asm68k.Timing
