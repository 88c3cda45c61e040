import Asm68k.Statement
import Asm68k.Timing.Table
import Asm68k.Timing.Times

/-!
The execution times of a statement, by the key of its instruction form.
-/

namespace Asm68k

/-! ### Bit counts -/

def popCount (x : UInt32) : Nat := (List.range 32).countP fun i => x.toNat.testBit i

/-- The changes between neighbouring bits in the low word of `v`, with a zero put below it. -/
def bitChanges (v : Int64) : Nat := popCount ((v ^^^ (v <<< 1)) &&& 0xFFFF).toUInt64.toUInt32

namespace Mnemonic

def isUnsized : Mnemonic → Bool
  | .jmp | .jsr | .nop | .reset | .rte | .rtr | .rts | .stop | .trap | .trapv | .unlk
  | .illegal => true
  | _ => false

/-- The size of an instruction that is written without one; `target` is the mode of the second
operand. -/
def defaultSize (mnemonic : Mnemonic) (target : Option Mode) : Option Size :=
  match mnemonic with
  | .moveq | .exg | .lea | .pea => some .long
  | .nbcd | .abcd | .sbcd | .tas | .scc _ => some .byte
  | .bchg | .bset | .bclr | .btst => if target = some .dn then some .long else some .byte
  | mnemonic => if mnemonic.isUnsized then none else some .word

/-- The names of the outcomes of an instruction that has several. -/
def outcomes : Mnemonic → List String
  | .bcc _ | .scc _ => ["Taken", "Not taken"]
  | .dbcc _ => ["Taken", "Not taken", "Expired"]
  | .chk => ["No trap", "Trap >", "Trap <"]
  | .trapv => ["No trap", "Trap"]
  | _ => ["Min", "Max"]

end Mnemonic

namespace Statement

/-- The number of registers that a statement moves: the length of its first register list, or one
for a single register. -/
def registerCount? (operands : List Operand) : Option Int64 :=
  operands.findSome? fun operand =>
    match operand.kind with
    | .address .registers value =>
      some (value.getD (Int64.ofNat (Register.countList operand.text)))
    | .address .dn _ | .address .an _ => some 1
    | _ => none

/-- The mode of an operand in the key. Where several registers can be moved, one is a list. -/
def keyMode (mnemonic : Mnemonic) (operand : Operand) : Option Mode :=
  match mnemonic, operand.mode? with
  | .movem, some .dn | .movem, some .an => some .registers
  | _, mode => mode

def keyOf (mnemonic : Mnemonic) (size : Option Size) (operands : List Operand) : Bytes :=
  let target := operands[1]?.bind Operand.mode?
  Timing.key mnemonic (size.orElse fun _ => mnemonic.defaultSize target)
    (operands.map (keyMode mnemonic))

def key? (statement : Statement) : Option Bytes :=
  match statement.opcode with
  | some ⟨.instruction mnemonic, _, size⟩ => some (keyOf mnemonic size statement.operands)
  | _ => none

/-- How often an instruction repeats its unit, as far as its first operand tells. -/
def repetitions? (symbols : Bytes → Option Int64) (mnemonic : Mnemonic) (operands : List Operand) :
    Option Repetitions :=
  let source := operands.head?
  let isImmediate := source.bind Operand.mode? == some .immediate
  let immediate :=
    if isImmediate then source.bind fun operand => Expression.value? symbols operand.text
    else none
  match mnemonic with
  | .shift _ _ =>
    if isImmediate then
      match immediate with
      | none => some (.between 1 8)
      | some n => some (.exactly n)
    else some (.between 0 63)
  | .mulu =>
    match immediate with
    | none => some (.between 0 16)
    | some n => some (.exactly (Int64.ofNat (popCount (n.toUInt64.toUInt32 &&& 0xFFFF))))
  | .muls =>
    match immediate with
    | none => some (.between 0 16)
    | some n => some (.exactly (Int64.ofNat (bitChanges n)))
  | .movem => (registerCount? operands).map .exactly
  | _ => none

/-- The times of an instruction whose entry in the table is known. -/
def timesOf (symbols : Bytes → Option Int64) (mnemonic : Mnemonic) (operands : List Operand)
    (entry : Timing.Entry) : Times :=
  let calculation : Calculation :=
    { base := entry.base
      address := entry.address
      perUnit := entry.perUnit
      repetitions := entry.perUnit.bind fun _ => repetitions? symbols mnemonic operands }
  let values := calculation.values
  { values
    labels := if 1 < values.length then mnemonic.outcomes.map Bytes.ofString else []
    calculation := some calculation }

/-- The times of an instruction, if the table has its form. -/
def times? (symbols : Bytes → Option Int64) (statement : Statement) : Option Times :=
  match statement.opcode with
  | some ⟨.instruction mnemonic, _, size⟩ =>
    (Timing.lookup? (keyOf mnemonic size statement.operands)).map
      (timesOf symbols mnemonic statement.operands)
  | _ => none

end Statement

end Asm68k
