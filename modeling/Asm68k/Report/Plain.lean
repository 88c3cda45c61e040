import Asm68k.Listing.Totals
import Asm68k.Pattern
import Asm68k.Report.Include
import Asm68k.Timing.Level

/-!
The report as text: times and sizes to the left of the source lines, then the totals. Numbers can be
coloured by their level.
-/

namespace Asm68k.Report.Plain

/-! ### Colours -/

def escapeCode (code : String) : Bytes := Bytes.ofString ("\x1b[" ++ code ++ "m")

def colorOn : Level → Bytes
  | .veryHigh => escapeCode "41"
  | .high => escapeCode "31"
  | .medium => escapeCode "33"
  | .low => escapeCode "32"

def colorOff : Bytes := escapeCode "0"

def colorize (color : Bool) (level : Level) (text : Bytes) : Bytes :=
  if color then colorOn level ++ text ++ colorOff else text

/-- A terminal control sequence: its introducer, parameters, intermediate bytes, and a final byte.
No two of these classes meet, so at most one front part of a text is such a sequence. -/
def controlSequence : Pattern :=
  .chain [.alt (.char '\u009b') (.seq (.char '\x1b') (.char '[')),
    .many (·.isBetween '0' '?'), .many (·.isBetween ' ' '/'), .one (·.isBetween '@' '~')]

/-- The characters that a terminal shows. -/
def visible (text : Bytes) : List Rune := controlSequence.deleteFrom (Rune.ofBytes text)

/-! ### Lines -/

/-- The column that the source text starts after. -/
def annotationWidth : Nat := 30

/-- Puts blanks in front until the text shows `width` characters. -/
def pad (width : Nat) (text : Bytes) : Bytes :=
  List.replicate (width - (visible text).length) ' '.toUInt8 ++ text

def timingsText (color : Bool) (times : Option Times) : Bytes :=
  match times with
  | none => []
  | some times =>
    Bytes.join (Bytes.ofString " / ") (times.values.map fun t => colorize color t.level t.text)

section

-- How a number of bytes is written.
variable (grouped : Int64 → Bytes)

def bytesText (color : Bool) (bytes : Int64) : Bytes :=
  if bytes = 0 then []
  else ' '.toUInt8 :: colorize color (Level.ofLength bytes) (grouped bytes)

def lineText (parts : Include) (color : Bool) (line : Line) : Bytes :=
  let timings := if parts.timings then timingsText color line.times else []
  let bytes := if parts.bytes then bytesText grouped color line.bytes else []
  let text := if parts.text then Bytes.ofString " | " ++ line.text else []
  pad annotationWidth (timings ++ bytes) ++ text

/-! ### Totals -/

def totalsText (totals : Totals) : Bytes :=
  let time :=
    if totals.isRange then totals.least.text ++ Bytes.ofString " - " ++ totals.greatest.text
    else totals.least.text
  Bytes.ofString "\nTotals:\n" ++ time ++ Bytes.ofString "\n" ++
    grouped totals.space.bytes ++ Bytes.ofString " bytes (" ++
    grouped totals.space.object ++ Bytes.ofString " object, " ++
    grouped totals.space.bss ++ Bytes.ofString " BSS)\n"

def render (parts : Include) (color : Bool) (lines : List Line) (totals : Totals) : Bytes :=
  (if parts.lines then lines.flatMap fun line => lineText grouped parts color line ++ ['\n'.toUInt8]
    else []) ++
    (if parts.totals then totalsText grouped totals else [])

end

end Asm68k.Report.Plain
