import Asm68k.Rune
import Asm68k.Rune.CaseRuns

/-!
Letter case, character by character. A byte outside the encoding becomes the replacement character.
-/

namespace Asm68k

namespace Rune

/-- The image of `c` under the runs, which are in increasing order. -/
def shiftCase (runs : List CaseRun) (c : Char) : Char :=
  match runs.find? (c.toNat ≤ ·.last) with
  | none => c
  | some run =>
    if run.first ≤ c.toNat && (c.toNat - run.first) % run.step == 0 then
      Char.ofNat (c.toNat + run.shift).toNat
    else c

def upperChar (c : Char) : Char := shiftCase upperRuns c

def lowerChar (c : Char) : Char := shiftCase lowerRuns c

/-- Maps the characters of a text and replaces its stray bytes by U+FFFD. -/
def mapText (f : Char → Char) (text : Bytes) : Bytes :=
  (ofBytes text).flatMap fun
    | .scalar c => String.utf8EncodeChar (f c)
    | .stray _ => String.utf8EncodeChar '\uFFFD'

end Rune

namespace Bytes

def upper (text : Bytes) : Bytes := Rune.mapText Rune.upperChar text

def lower (text : Bytes) : Bytes := Rune.mapText Rune.lowerChar text

end Bytes

end Asm68k
