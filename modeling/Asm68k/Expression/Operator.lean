/-!
Operators of expressions, on 64-bit words with a sign.
-/

namespace Asm68k.Expression

inductive UnaryOp where
  | minus
  | plus
  | complement
  deriving DecidableEq, Repr

inductive BinaryOp where
  | multiply
  | divide
  | modulo
  | add
  | subtract
  | shiftLeft
  | shiftRight
  | and
  | xor
  | or
  deriving DecidableEq, Repr

inductive Operator where
  | unary (op : UnaryOp)
  | binary (op : BinaryOp)
  deriving DecidableEq, Repr

namespace UnaryOp

def apply : UnaryOp → Int64 → Int64
  | .minus, a => -a
  | .plus, a => a
  | .complement, a => ~~~a

end UnaryOp

namespace BinaryOp

/-- Operators of higher rank bind tighter; all group to the left. -/
def rank : BinaryOp → Nat
  | .multiply | .divide | .modulo => 6
  | .add | .subtract => 5
  | .shiftLeft | .shiftRight => 4
  | .and => 3
  | .xor => 2
  | .or => 1

/-- Shifts to the left; the count has no sign, and from 64 on nothing is left. -/
def shiftLeftBy (a count : Int64) : Int64 := if count.toUInt64 < 64 then a <<< count else 0

/-- Shifts to the right and fills with the sign; the count has no sign. -/
def shiftRightBy (a count : Int64) : Int64 :=
  if count.toUInt64 < 64 then a >>> count else if a < 0 then -1 else 0

/-- Fails on a division by zero. -/
def apply : BinaryOp → Int64 → Int64 → Option Int64
  | .multiply, a, b => some (a * b)
  | .divide, a, b => if b = 0 then none else some (a / b)
  | .modulo, a, b => if b = 0 then none else some (a % b)
  | .add, a, b => some (a + b)
  | .subtract, a, b => some (a - b)
  | .shiftLeft, a, b => some (shiftLeftBy a b)
  | .shiftRight, a, b => some (shiftRightBy a b)
  | .and, a, b => some (a &&& b)
  | .xor, a, b => some (a ^^^ b)
  | .or, a, b => some (a ||| b)

end BinaryOp

namespace Operator

/-- Operators in front of their operand bind tightest. -/
def rank : Operator → Nat
  | .unary _ => 7
  | .binary op => op.rank

end Operator

end Asm68k.Expression
