import Asm68k.Mnemonic
import Asm68k.Mode
import Asm68k.Size

/-!
Instruction forms as text: mnemonic, size and the modes of the operands, as in `MOVE.W Dn,(An)`.
-/

namespace Asm68k.Timing

/-- The text of a form whose parts are given as texts. -/
def keyText (name : Bytes) (suffix : Option Bytes) (modes : List Bytes) : Bytes :=
  name ++
    (match suffix with
    | none => []
    | some suffix => '.'.toUInt8 :: suffix) ++
    (match modes with
    | [] => []
    | _ => ' '.toUInt8 :: Bytes.join [','.toUInt8] modes)

def modeText (mode : Option Mode) : Bytes := Bytes.ofString (Mode.nameOf mode)

def key (mnemonic : Mnemonic) (size : Option Size) (modes : List (Option Mode)) : Bytes :=
  keyText mnemonic.text (size.map Size.text) (modes.map modeText)

end Asm68k.Timing
