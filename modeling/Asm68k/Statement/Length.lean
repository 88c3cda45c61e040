import Asm68k.Statement

/-!
The number of bytes that a statement occupies. Lengths are 64-bit words.
-/

namespace Asm68k

namespace Mnemonic

/-- An operation word and one extension word, whatever the operands. -/
def isTwoWords : Mnemonic → Bool
  | .link | .movem | .movep | .stop | .dbcc _ => true
  | _ => false

/-- The immediate operand is part of the operation word. -/
def isQuick : Mnemonic → Bool
  | .moveq | .addq | .subq | .shift _ _ => true
  | _ => false

/-- Operations on one bit, whose immediate operand takes one word in every size. -/
def isBitOperation : Mnemonic → Bool
  | .bchg | .bclr | .bset | .btst => true
  | _ => false

end Mnemonic

namespace Statement

/-! ### Instructions -/

/-- The extension words that an operand takes. -/
def extensionWords (mnemonic : Mnemonic) (size : Option Size) : Option Mode → Nat
  | some .absWord => 1
  | some .absLong => 2
  | some .immediate =>
    if mnemonic.isQuick then 0
    else if mnemonic.isBitOperation then 1
    else if size = some .long then 2
    else 1
  | some mode => if mode.hasExtension then 1 else 0
  | none => 0

def instructionLength (mnemonic : Mnemonic) (size : Option Size) (operands : List Operand) : Nat :=
  if mnemonic.isBranch then
    if size = some .byte then 2 else 4
  else if mnemonic.isTwoWords then 4
  else 2 * operands.foldr (fun operand words => extensionWords mnemonic size operand.mode? + words) 1

/-! ### Data -/

/-- One byte for each value, and the bytes of quotations. -/
def dataBytes (operands : List Operand) : Nat :=
  (operands.map fun operand =>
    match operand.kind with
    | .quotation contents => contents.length
    | _ => 1).foldr (· + ·) 0

/-- As many elements as the first operand says, of the given size or of one word. -/
def reservedLength (symbols : Bytes → Option Int64) (size : Option Size) :
    List Operand → Int64
  | [] => 0
  | operand :: _ =>
    match Expression.value? symbols operand.text with
    | none => 0
    | some count =>
      if count ≤ 0 then 0 else count * Int64.ofNat ((size.getD .word).width)

def directiveLength (symbols : Bytes → Option Int64) (directive : Directive) (size : Option Size)
    (operands : List Operand) : Int64 :=
  match directive with
  | .dc =>
    match size with
    | none | some .byte => Int64.ofNat (dataBytes operands)
    | some size => Int64.ofNat (operands.length * size.width)
  | .db => Int64.ofNat (dataBytes operands)
  | .dw => Int64.ofNat (operands.length * 2)
  | .dl => Int64.ofNat (operands.length * 4)
  | .dcb | .ds => reservedLength symbols size operands
  | _ => 0

/-- Instructions and data have a length; the length of anything else is zero. -/
def length (symbols : Bytes → Option Int64) (statement : Statement) : Int64 :=
  match statement.opcode with
  | some ⟨.instruction mnemonic, _, size⟩ =>
    Int64.ofNat (instructionLength mnemonic size statement.operands)
  | some ⟨.directive directive, _, size⟩ =>
    directiveLength symbols directive size statement.operands
  | _ => 0

end Statement

end Asm68k
