import Mathlib.Algebra.Ring.Int.Defs
import Asm68k.Expression.Postfix

/-!
Expression trees and what they are worth. Operators work on the integers and the results wrap to
64 bits with a sign. The machine computes these values: `runFrom_program`.
-/

namespace Asm68k.Expression

/-! ### Operators on the integers -/

def UnaryOp.value (op : UnaryOp) (a : Int64) : Int64 :=
  match op with
  | .minus => .ofInt (-a.toInt)
  | .plus => a
  | .complement => .ofInt (-a.toInt - 1)

/-- Division truncates. Shifts multiply and divide by powers of two, the count taken without a
sign. -/
def BinaryOp.value (op : BinaryOp) (a b : Int64) : Int64 :=
  match op with
  | .multiply => .ofInt (a.toInt * b.toInt)
  | .divide => .ofInt (a.toInt.tdiv b.toInt)
  | .modulo => .ofInt (a.toInt.tmod b.toInt)
  | .add => .ofInt (a.toInt + b.toInt)
  | .subtract => .ofInt (a.toInt - b.toInt)
  | .shiftLeft => .ofInt (a.toInt * 2 ^ b.toUInt64.toNat)
  | .shiftRight => .ofInt (a.toInt / 2 ^ b.toUInt64.toNat)
  | .and => a &&& b
  | .xor => a ^^^ b
  | .or => a ||| b

def BinaryOp.divides : BinaryOp → Bool
  | .divide | .modulo => true
  | _ => false

theorem UnaryOp.apply_eq_value (op : UnaryOp) (a : Int64) : op.apply a = op.value a := by
  apply Int64.toInt_inj.mp
  cases op with
  | minus =>
    rw [apply, value, Int64.toInt_neg, Int64.toInt_ofInt]
  | plus => rfl
  | complement =>
    rw [apply, value, Int64.toInt_not, Int64.toInt_ofInt]

namespace BinaryOp

theorem smod_64 {x : BitVec 64} (small : x.toNat < 64) : x.smod 64 = x := by
  apply BitVec.eq_of_toInt_eq
  rw [BitVec.toInt_smod, BitVec.toInt_eq_toNat_of_lt (by omega)]
  exact Int.fmod_eq_of_lt (by omega) (by show (x.toNat : Int) < 64; omega)

theorem ofInt_two_pow (n : Nat) : BitVec.ofInt 64 (2 ^ n) = BitVec.twoPow 64 n := by
  have natural : (2 ^ n : Int) = ((2 ^ n : Nat) : Int) := by rw [Int.natCast_pow]; rfl
  apply BitVec.eq_of_toNat_eq
  rw [natural, BitVec.ofInt_natCast, BitVec.toNat_ofNat, BitVec.toNat_twoPow]

theorem shiftLeftBy_eq (a count : Int64) :
    shiftLeftBy a count = .ofInt (a.toInt * 2 ^ count.toUInt64.toNat) := by
  unfold shiftLeftBy
  split
  · rename_i below
    have small : count.toBitVec.toNat < 64 := UInt64.lt_iff_toNat_lt.mp below
    apply Int64.toBitVec_inj.mp
    rw [Int64.toBitVec_shiftLeft, smod_64 small, Int64.toBitVec_ofInt, BitVec.ofInt_mul,
      BitVec.shiftLeft_eq', BitVec.shiftLeft_eq_mul_twoPow, ofInt_two_pow, ← Int64.toInt_toBitVec,
      BitVec.ofInt_toInt]
    rfl
  · rename_i above
    have large : 64 ≤ count.toUInt64.toNat := UInt64.le_iff_toNat_le.mp (UInt64.not_lt.mp above)
    have factors : (2 : Int) ^ count.toUInt64.toNat =
        2 ^ 64 * 2 ^ (count.toUInt64.toNat - 64) := by
      rw [← Int.pow_add, Nat.add_sub_cancel' large]
    apply Int64.toInt_inj.mp
    rw [Int64.toInt_ofInt, factors, Int.mul_left_comm]
    exact (Int.bmod_eq_zero_of_dvd (Int.dvd_mul_right _ _)).symm

theorem shiftRightBy_eq (a count : Int64) :
    shiftRightBy a count = .ofInt (a.toInt / 2 ^ count.toUInt64.toNat) := by
  unfold shiftRightBy
  split
  · rename_i below
    have small : count.toBitVec.toNat < 64 := UInt64.lt_iff_toNat_lt.mp below
    have quotient : (a >>> count).toInt = a.toInt / 2 ^ count.toUInt64.toNat := by
      rw [← Int64.toInt_toBitVec, Int64.toBitVec_shiftRight, smod_64 small,
        BitVec.sshiftRight_eq', BitVec.toInt_sshiftRight, Int.shiftRight_eq_div_pow,
        Int.natCast_pow]
      rfl
    rw [← quotient, Int64.ofInt_toInt]
  · rename_i above
    have large : 64 ≤ count.toUInt64.toNat := UInt64.le_iff_toNat_le.mp (UInt64.not_lt.mp above)
    have divisor : (2 : Int) ^ 63 ≤ 2 ^ count.toUInt64.toNat := by
      have := Nat.pow_le_pow_right (n := 2) (by omega) (show 63 ≤ count.toUInt64.toNat by omega)
      exact_mod_cast this
    have lower := a.le_toInt
    have upper := a.toInt_lt
    generalize (2 : Int) ^ count.toUInt64.toNat = power at *
    split
    · rename_i negative
      have below : a.toInt < 0 := Int64.lt_iff_toInt_lt.mp negative
      have : a.toInt / power = -1 := by
        apply Int.le_antisymm
        · exact Int.le_of_lt_add_one ((Int.ediv_lt_iff_lt_mul (by omega)).mpr (by omega))
        · exact (Int.le_ediv_iff_mul_le (by omega)).mpr (by omega)
      rw [this]
      rfl
    · rename_i nonnegative
      have above : 0 ≤ a.toInt := Int.not_lt.mp fun h => nonnegative (Int64.lt_iff_toInt_lt.mpr h)
      rw [Int.ediv_eq_zero_of_lt above (by omega)]
      rfl

/-- An operator fails exactly on a zero divisor. -/
theorem apply_eq_value (op : BinaryOp) (a b : Int64) :
    op.apply a b = if op.divides && b == 0 then none else some (op.value a b) := by
  have quotient : a / b = .ofInt (a.toInt.tdiv b.toInt) := by
    apply Int64.toInt_inj.mp
    rw [Int64.toInt_div, Int64.toInt_ofInt]
  have remainder : a % b = .ofInt (a.toInt.tmod b.toInt) := by
    rw [← Int64.toInt_mod, Int64.ofInt_toInt]
  cases op
  case divide => simp [apply, value, divides, quotient]
  case modulo => simp [apply, value, divides, remainder]
  case shiftLeft => simp [apply, value, divides, shiftLeftBy_eq]
  case shiftRight => simp [apply, value, divides, shiftRightBy_eq]
  case multiply | add | subtract =>
    simp [apply, value, divides, Int64.ofInt_mul, Int64.ofInt_add, Int64.ofInt_sub]
  case and | xor | or => rfl

end BinaryOp

/-! ### Trees -/

inductive Tree where
  | literal (v : Int64)
  | symbol (name : Bytes)
  | unary (op : UnaryOp) (operand : Tree)
  | binary (op : BinaryOp) (left right : Tree)

namespace Tree

/-- The symbols from left to right. -/
def names : Tree → List Bytes
  | .literal _ => []
  | .symbol name => [name]
  | .unary _ operand => operand.names
  | .binary _ left right => left.names ++ right.names

section Values

variable (symbols : Bytes → Option Int64)

def value : Tree → Int64
  | .literal v => v
  | .symbol name => (symbols name).getD 0
  | .unary op operand => op.value operand.value
  | .binary op left right => op.value left.value right.value

/-- Some division or remainder has a zero right operand. -/
def dividesByZero : Tree → Bool
  | .literal _ | .symbol _ => false
  | .unary _ operand => operand.dividesByZero
  | .binary op left right =>
    left.dividesByZero || right.dividesByZero || (op.divides && right.value symbols == 0)

/-- The leftmost symbol without a value. -/
def missing? (tree : Tree) : Option Bytes := tree.names.find? fun name => (symbols name).isNone

/-- A missing symbol comes first, then division by zero. -/
def meaning (tree : Tree) : Except Error Int64 :=
  match tree.missing? symbols with
  | some name => .error (.unknownSymbol name)
  | none => if tree.dividesByZero symbols then .error .divisionByZero else .ok (tree.value symbols)

/-! ### Programs -/

/-- Operands come before their operator. -/
def program : Tree → List Instruction
  | .literal v => [.push v]
  | .symbol name => [.push ((symbols name).getD 0)]
  | .unary op operand => operand.program ++ [.apply (.unary op)]
  | .binary op left right => left.program ++ right.program ++ [.apply (.binary op)]

theorem runFrom_binary (op : BinaryOp) (a b : Int64) (stack : List Int64)
    (rest : List Instruction) :
    runFrom (b :: a :: stack) (.apply (.binary op) :: rest) =
      if op.divides && b == 0 then .error .divisionByZero
      else runFrom (op.value a b :: stack) rest := by
  rw [runFrom, Instruction.run, op.apply_eq_value]
  cases op.divides && b == 0 <;> rfl

theorem runFrom_program (tree : Tree) (stack : List Int64) (rest : List Instruction) :
    runFrom stack (tree.program symbols ++ rest) =
      if tree.dividesByZero symbols then .error .divisionByZero
      else runFrom (tree.value symbols :: stack) rest := by
  induction tree generalizing stack rest with
  | literal v => rfl
  | symbol name => rfl
  | unary op operand ih =>
    rw [program, List.append_assoc, ih, dividesByZero, value]
    congr 1
    show runFrom (op.apply (operand.value symbols) :: stack) rest = _
    rw [op.apply_eq_value]
  | binary op left right ihLeft ihRight =>
    rw [program, List.append_assoc, List.append_assoc, ihLeft, ihRight, List.singleton_append,
      runFrom_binary, dividesByZero, value]
    cases left.dividesByZero symbols <;> cases right.dividesByZero symbols <;> rfl

end Values

end Tree

end Asm68k.Expression
