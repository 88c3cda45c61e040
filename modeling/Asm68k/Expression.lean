import Asm68k.Expression.Postfix
import Asm68k.Rune.Space

/-!
The value of an expression text.
-/

namespace Asm68k.Expression

def Halt.toError : Halt → Error
  | .stuck => .malformed
  | .divisionByZero => .divisionByZero

/-- The text without white space around it and without one number sign in front. -/
def bare (text : Bytes) : Bytes :=
  match text.trim with
  | [] => []
  | b :: rest => if b = '#'.toUInt8 then rest else b :: rest

def evaluate (symbols : Bytes → Option Int64) (text : Bytes) : Except Error Int64 := do
  let program ← compile symbols (Item.ofText (bare text))
  (run program).mapError Halt.toError

/-- The value, if there is one. -/
def value? (symbols : Bytes → Option Int64) (text : Bytes) : Option Int64 :=
  (evaluate symbols text).toOption

end Asm68k.Expression
