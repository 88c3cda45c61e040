import Asm68k.Rune.Quoted

/-!
Why an expression has no value.
-/

namespace Asm68k.Expression

inductive Error where
  | malformed
  | unexpected (byte : UInt8)
  /-- A number that runs into a letter; the text ends with the letter. -/
  | badNumber (text : Bytes)
  /-- A number of more than 64 bits. -/
  | numberTooLarge (digits : Bytes)
  | unknownSymbol (name : Bytes)
  | divisionByZero
  deriving DecidableEq, Repr

namespace Error

def isSyntactic : Error → Bool
  | .malformed | .unexpected _ | .badNumber _ | .numberTooLarge _ => true
  | .unknownSymbol _ | .divisionByZero => false

def message : Error → Bytes
  | .malformed => Bytes.ofString "expression syntax error"
  | .unexpected byte =>
    Bytes.ofString "expression syntax error: unexpected " ++ Bytes.quoteByte byte
  | .badNumber text =>
    Bytes.ofString "expression syntax error: bad number " ++ Bytes.quote text
  | .numberTooLarge digits =>
    Bytes.ofString "expression syntax error: strconv.ParseUint: parsing " ++ Bytes.quote digits ++
      Bytes.ofString ": value out of range"
  | .unknownSymbol name => Bytes.ofString "unknown symbol: " ++ name
  | .divisionByZero => Bytes.ofString "division by zero"

end Error

end Asm68k.Expression
