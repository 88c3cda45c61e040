import Asm68k.Rune.Case

/-!
Operand sizes, written as one letter after a dot.
-/

namespace Asm68k

inductive Size where
  | byte
  | word
  | long
  /-- A short branch, and single precision in data. -/
  | short
  | double
  | quad
  | extended
  deriving DecidableEq, Repr

namespace Size

def all : List Size := [.byte, .word, .long, .short, .double, .quad, .extended]

def letter : Size → Char
  | .byte => 'B'
  | .word => 'W'
  | .long => 'L'
  | .short => 'S'
  | .double => 'D'
  | .quad => 'Q'
  | .extended => 'X'

def text (size : Size) : Bytes := [size.letter.toUInt8]

def width : Size → Nat
  | .byte => 1
  | .word => 2
  | .long => 4
  | .short => 4
  | .double => 8
  | .quad => 8
  | .extended => 12

/-- The size whose letter the text is, in either case. -/
def ofText? (text : Bytes) : Option Size :=
  let name := text.upper
  all.find? (·.text == name)

end Size

end Asm68k
