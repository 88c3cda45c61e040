import Asm68k.Decimal
import Asm68k.Rune.Case
import Asm68k.Rune.Space

/-!
Registers and register lists such as `d0-d3/a1`, in which the address registers follow on the data
registers.
-/

namespace Asm68k

inductive Register where
  | data (n : Fin 8)
  | address (n : Fin 8)
  deriving DecidableEq, Repr

namespace Register

/-- The place in a register list. -/
def index : Register → Nat
  | .data n => n
  | .address n => 8 + n

def stackPointer : Register := .address 7

inductive Fault where
  | badName (text : Bytes)
  | badNumber (text : Bytes)
  | badLetter (text : Bytes)
  deriving DecidableEq, Repr

def Fault.message : Fault → Bytes
  | .badName text => Bytes.ofString "invalid register name: " ++ text
  | .badNumber text => Bytes.ofString "invalid register number: " ++ text
  | .badLetter text => Bytes.ofString "invalid register type: " ++ text

/-- A register number, which may have a sign and leading zeros. -/
def number? (text : Bytes) : Option (Fin 8) :=
  match Decimal.readInt64 text with
  | .error _ => none
  | .ok n => if h : 0 ≤ n.toInt ∧ n.toInt.toNat < 8 then some ⟨n.toInt.toNat, h.2⟩ else none

/-- The register that a text names, in either case and with white space around it. -/
def ofText (text : Bytes) : Except Fault Register :=
  let name := text.lower.trim
  if name = Bytes.ofString "sp" then .ok stackPointer
  else match name with
    | letter :: b :: rest =>
      match number? (b :: rest) with
      | none => .error (.badNumber name)
      | some n =>
        if letter = 'd'.toUInt8 then .ok (.data n)
        else if letter = 'a'.toUInt8 then .ok (.address n)
        else .error (.badLetter name)
    | _ => .error (.badName name)

/-- The registers from one to another, both included, in either direction. -/
def distance (r s : Register) : Nat := max r.index s.index - min r.index s.index + 1

/-- The number of registers in one part of a list. What is no range counts as one register. -/
def countPart (part : Bytes) : Nat :=
  match part.trim with
  | [] => 0
  | part =>
    match part.cut? '-'.toUInt8 with
    | none => 1
    | some (first, last) =>
      match ofText first, ofText last with
      | .ok r, .ok s => distance r s
      | _, _ => 1

/-- The number of registers in a list, whose parts stand between slashes. -/
def countList (list : Bytes) : Nat := ((list.split '/'.toUInt8).map countPart).foldr (· + ·) 0

end Register

end Asm68k
