import Asm68k.Json.Form
import Asm68k.Json.Value
import Asm68k.Timing

/-!
Times as JSON: an array of clock, read and write.
-/

namespace Asm68k.Timing

def toJson (t : Timing) : Json.Value := .array [.number t.clock, .number t.read, .number t.write]

/-- A component: an integer, or null for zero. -/
def component? : Json.Form → Option Int64
  | .null => some 0
  | .number literal => (Decimal.readInt64 literal).toOption
  | _ => none

/-- Reads a time. Components that are missing are zero, further ones are ignored, and null is the
zero time. -/
def ofForm? : Json.Form → Option Timing
  | .null => some zero
  | .array items =>
    let component (i : Nat) : Option Int64 := component? (items[i]?.getD .null)
    do return ⟨← component 0, ← component 1, ← component 2⟩
  | _ => none

def ofJson? (text : Bytes) : Option Timing := do ofForm? (← Json.Form.ofText? text)

end Asm68k.Timing
