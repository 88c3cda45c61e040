import Asm68k.Decimal

/-!
Macro arguments. Higher numbers are replaced first, so that the placeholder of the first argument is
not found in that of the tenth.
-/

namespace Asm68k

/-- The placeholder of an argument: a backslash and its number. -/
def placeholderText (index : Nat) : Bytes := '\\'.toUInt8 :: Decimal.ofNat index

/-- Replaces the placeholders of the arguments, which are numbered from one. -/
def substitute (arguments : List Bytes) (text : Bytes) : Bytes :=
  (arguments.zipIdx 1).foldr
    (fun (argument, index) text => text.replaceAll (placeholderText index) argument) text

end Asm68k
