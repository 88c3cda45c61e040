import Asm68k.Bytes

/-!
Decimal numbers: writing integers, also with the digits in groups of three, and reading signed
64-bit integers.
-/

namespace Asm68k.Decimal

/-! ### Writing -/

def ofNat (n : Nat) : Bytes := (Nat.toDigits 10 n).map Char.toUInt8

def signed (digits : Nat → Bytes) : Int → Bytes
  | .ofNat n => digits n
  | .negSucc n => '-'.toUInt8 :: digits (n + 1)

def ofInt (n : Int) : Bytes := signed ofNat n

def ofInt64 (n : Int64) : Bytes := ofInt n.toInt

/-- Puts a comma after every third digit; the digits come and go in reverse order. -/
def separate : Bytes → Bytes
  | a :: b :: c :: d :: rest => a :: b :: c :: ','.toUInt8 :: separate (d :: rest)
  | digits => digits

/-- The number with commas between the groups of three digits, as in `-1,234,567`. This is how
`humanize.Comma` writes it. -/
def grouped (n : Int64) : Bytes :=
  signed (fun n => (separate (ofNat n).reverse).reverse) n.toInt

/-! ### Reading -/

inductive Fault where
  | malformed
  | outOfRange
  deriving DecidableEq, Repr

/-- Reads digits after those that gave `value`. Leaving 64 bits is noticed before a wrong byte that
comes later. -/
def readDigits (value : Nat) : Bytes → Except Fault Nat
  | [] => .ok value
  | b :: rest =>
    if Bytes.isDigit b then
      let next := 10 * value + (b.toNat - '0'.toNat)
      if next < 0x1_0000_0000_0000_0000 then readDigits next rest else .error .outOfRange
    else .error .malformed

/-- A natural number of less than 64 bits, without a sign. -/
def readNat : Bytes → Except Fault Nat
  | [] => .error .malformed
  | digits => readDigits 0 digits

/-- Keeps the integers of the signed 64-bit range. -/
def inRange (n : Int) : Except Fault Int64 :=
  if -0x8000_0000_0000_0000 ≤ n && n < 0x8000_0000_0000_0000 then .ok (Int64.ofInt n)
  else .error .outOfRange

/-- An optional sign and at least one digit, in the signed 64-bit range. -/
def readInt64 : Bytes → Except Fault Int64
  | [] => .error .malformed
  | b :: rest =>
    if b == '-'.toUInt8 then do inRange (-(← readNat rest))
    else if b == '+'.toUInt8 then do inRange (← readNat rest)
    else do inRange (← readNat (b :: rest))

end Asm68k.Decimal
