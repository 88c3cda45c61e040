import Asm68k.Expression.Error
import Asm68k.Expression.Operator

/-!
The items of an expression text: values, symbols, operators and parentheses. Plus, minus and tilde
mean something else after a value than before one, and a percent or at sign begins a number only
where no value precedes. The items do not depend on what the symbols mean.
-/

namespace Asm68k.Expression

inductive Item where
  | value (v : Int64)
  | symbol (name : Bytes)
  | operator (op : Operator)
  | opening
  | closing
  /-- Text that is no item; nothing is read after it. -/
  | bad (error : Error)
  deriving DecidableEq, Repr

namespace Item

/-- A value is complete after the item. -/
def endsValue : Item → Bool
  | .value _ | .symbol _ | .closing => true
  | .operator _ | .opening | .bad _ => false

/-! ### Bytes of names and numbers -/

def isLetter (b : UInt8) : Bool :=
  ('a'.toUInt8 ≤ b && b ≤ 'z'.toUInt8) || ('A'.toUInt8 ≤ b && b ≤ 'Z'.toUInt8)

def startsName (b : UInt8) : Bool := isLetter b || b == '_'.toUInt8 || b == '.'.toUInt8

def isNameByte (b : UInt8) : Bool := startsName b || Bytes.isDigit b

/-- The value of a digit; letters are digits from ten on. -/
def digitValue (b : UInt8) : Nat :=
  if Bytes.isDigit b then b.toNat - '0'.toNat
  else if b < 'a'.toUInt8 then b.toNat - 'A'.toNat + 10
  else b.toNat - 'a'.toNat + 10

/-- Whether a byte is a digit of the base, which is at most sixteen. -/
def isDigitOf (base : Nat) (b : UInt8) : Bool :=
  (Bytes.isDigit b || isLetter b) && digitValue b < base

/-! ### Literals -/

/-- A number in `base`, written after `mark`, and its length without the mark. -/
def number (mark : Bytes) (base : Nat) (text : Bytes) : Except Error (Int64 × Nat) :=
  let digits := text.takeWhile (isDigitOf base)
  let next := (text.dropWhile (isDigitOf base)).head?
  let value := digits.foldl (fun n b => base * n + digitValue b) 0
  if digits.isEmpty then .error .malformed
  else match next.filter isNameByte with
    | some b => .error (.badNumber (mark ++ digits ++ [b]))
    | none =>
      if value < 0x1_0000_0000_0000_0000 then .ok ((UInt64.ofNat value).toInt64, digits.length)
      else .error (.numberTooLarge digits)

/-- One to four bytes between quotation marks, the first the most significant, and their number.
The text begins behind the opening mark. -/
def characters (mark : UInt8) (text : Bytes) : Except Error (Int64 × Nat) :=
  match text.cut? mark with
  | none => .error .malformed
  | some (bytes, _) =>
    if 1 ≤ bytes.length && bytes.length ≤ 4 then
      .ok (bytes.foldl (fun v b => v <<< 8 ||| b.toUInt64.toInt64) 0, bytes.length)
    else .error .malformed

/-- The item of a literal that was read, with `more` bytes to add to its length. -/
def ofLiteral (more : Nat) : Except Error (Int64 × Nat) → Item × Nat
  | .ok (v, length) => (.value v, length + more)
  | .error e => (.bad e, 0)

/-! ### Operators -/

/-- The operator of one byte, which may depend on whether a value precedes. -/
def operatorOf? (afterValue : Bool) (b : UInt8) : Option Operator :=
  if b = '*'.toUInt8 then some (.binary .multiply)
  else if b = '/'.toUInt8 then some (.binary .divide)
  else if b = '%'.toUInt8 then some (.binary .modulo)
  else if b = '&'.toUInt8 then some (.binary .and)
  else if b = '^'.toUInt8 then some (.binary .xor)
  else if b = '|'.toUInt8 ∨ b = '!'.toUInt8 then some (.binary .or)
  else if b = '+'.toUInt8 then some (if afterValue then .binary .add else .unary .plus)
  else if b = '-'.toUInt8 then some (if afterValue then .binary .subtract else .unary .minus)
  else if b = '~'.toUInt8 then some (if afterValue then .binary .xor else .unary .complement)
  else none

/-- A shift is written with the sign twice. -/
def shiftAt (b : UInt8) (rest : Bytes) : Item × Nat :=
  if rest.head? = some b then
    (.operator (.binary (if b = '<'.toUInt8 then .shiftLeft else .shiftRight)), 1)
  else (.bad .malformed, 0)

/-! ### Reading -/

/-- The item that begins with the byte `b`, and the number of further bytes it takes. -/
def itemAt (afterValue : Bool) (b : UInt8) (rest : Bytes) : Item × Nat :=
  if b = '('.toUInt8 then (.opening, 0)
  else if b = ')'.toUInt8 then (.closing, 0)
  else if Bytes.isDigit b then
    match number [] 10 (b :: rest) with
    | .ok (v, length) => (.value v, length - 1)
    | .error e => (.bad e, 0)
  else if b = '$'.toUInt8 then ofLiteral 0 (number [b] 16 rest)
  else if b = '\''.toUInt8 ∨ b = '"'.toUInt8 then ofLiteral 1 (characters b rest)
  else if b = '%'.toUInt8 ∧ !afterValue then ofLiteral 0 (number [b] 2 rest)
  else if b = '@'.toUInt8 ∧ !afterValue then ofLiteral 0 (number [b] 8 rest)
  else if startsName b then
    let tail := rest.takeWhile isNameByte
    (.symbol (b :: tail), tail.length)
  else if b = '<'.toUInt8 ∨ b = '>'.toUInt8 then shiftAt b rest
  else match operatorOf? afterValue b with
    | some op => (.operator op, 0)
    | none => (.bad (.unexpected b), 0)

/-- The items of a text. The numbers are the state: whether a value precedes, and how many bytes
the item read last still takes. -/
def readFrom (afterValue : Bool) : Nat → Bytes → List Item
  | _, [] => []
  | skip + 1, _ :: rest => readFrom afterValue skip rest
  | 0, b :: rest =>
    if b = ' '.toUInt8 ∨ b = '\t'.toUInt8 then readFrom afterValue 0 rest
    else
      let (item, more) := itemAt afterValue b rest
      match item with
      | .bad _ => [item]
      | _ => item :: readFrom item.endsValue more rest

def ofText (text : Bytes) : List Item := readFrom false 0 text

end Item

end Asm68k.Expression
