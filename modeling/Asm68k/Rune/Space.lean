import Asm68k.Rune

/-!
White space at the ends of a text.
-/

namespace Asm68k

namespace Rune

/-- The characters with the Unicode property `White_Space`. -/
def isSpace : Rune → Bool
  | .stray _ => false
  | .scalar c =>
    let n := c.toNat
    (9 ≤ n && n ≤ 13) || n == 0x20 || n == 0x85 || n == 0xA0 || n == 0x1680 ||
      (0x2000 ≤ n && n ≤ 0x200A) || n == 0x2028 || n == 0x2029 || n == 0x202F || n == 0x205F ||
      n == 0x3000

end Rune

namespace Bytes

/-- The text without the white space at its two ends. -/
def trim (text : Bytes) : Bytes :=
  let trimmed := (Rune.ofBytes text).dropWhile Rune.isSpace
  (trimmed.reverse.dropWhile Rune.isSpace).reverse.flatMap Rune.toBytes

end Bytes

end Asm68k
