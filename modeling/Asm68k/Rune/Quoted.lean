import Asm68k.Rune
import Asm68k.Rune.Graphic

/-!
Quoted characters and texts, for messages. Graphic characters stand for themselves; the rest is
written with a backslash.
-/

namespace Asm68k

namespace Rune

/-- The last `digits` hexadecimal digits of `n`. -/
def hexadecimal (digits n : Nat) : Bytes :=
  (List.range digits).reverse.map fun i => ((n >>> (4 * i)) % 16).digitChar.toUInt8

/-- The letter that names a control character after a backslash. -/
def controlLetter? (c : Char) : Option Char :=
  [('\x07', 'a'), ('\x08', 'b'), ('\x0c', 'f'), ('\n', 'n'), ('\r', 'r'), ('\t', 't'),
    ('\x0b', 'v')].lookup c

/-- A rune as it is written between quotes of the kind `mark`. -/
def escape (mark : Char) : Rune → Bytes
  | .stray b => Bytes.ofString "\\x" ++ hexadecimal 2 b.toNat
  | .scalar c =>
    if c == mark || c == '\\' then ['\\'.toUInt8, c.toUInt8]
    else if isGraphic c then String.utf8EncodeChar c
    else match controlLetter? c with
      | some letter => ['\\'.toUInt8, letter.toUInt8]
      | none =>
        if c.toNat < 0x20 || c.toNat == 0x7F then Bytes.ofString "\\x" ++ hexadecimal 2 c.toNat
        else if c.toNat < 0x10000 then Bytes.ofString "\\u" ++ hexadecimal 4 c.toNat
        else Bytes.ofString "\\U" ++ hexadecimal 8 c.toNat

end Rune

namespace Bytes

def quote (text : Bytes) : Bytes :=
  ['"'.toUInt8] ++ (Rune.ofBytes text).flatMap (Rune.escape '"') ++ ['"'.toUInt8]

/-- The quoted character that has the byte's value as its code. -/
def quoteByte (b : UInt8) : Bytes :=
  ['\''.toUInt8] ++ Rune.escape '\'' (.scalar (Char.ofNat b.toNat)) ++ ['\''.toUInt8]

end Bytes

end Asm68k
