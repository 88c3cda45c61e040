import Asm68k.Listing.Totals
import Asm68k.Report.Include
import Asm68k.Timing.Json

/-!
The report as a JSON document. Parts that are left out, or that a line does not have, are missing
from it.
-/

namespace Asm68k.Report.Document

open Json (Value)

def ofRepetitions : Repetitions → Value
  | .exactly n => .number n
  | .between low high => .array [.number low, .number high]

/-- The field of a part that may be missing. -/
def optional (name : String) (encode : α → Value) : Option α → List (String × Value)
  | none => []
  | some x => [(name, encode x)]

def ofCalculation (c : Calculation) : Value :=
  .object ([("base", .array (c.base.map Timing.toJson))] ++
    optional "ea" Timing.toJson c.address ++ optional "multiplier" Timing.toJson c.perUnit ++
    optional "n" ofRepetitions c.repetitions)

def ofTimes (times : Times) : Value :=
  .object ([("values", .array (times.values.map Timing.toJson))] ++
    (if times.labels.isEmpty then [] else [("labels", .array (times.labels.map .text))]) ++
    optional "calculation" ofCalculation times.calculation)

def ofLine (parts : Include) (line : Line) : Value :=
  .object ((if parts.text then [("text", .text line.text)] else []) ++
    (if parts.timings then optional "timing" ofTimes line.times else []) ++
    (if parts.bytes then [("bytes", .number line.bytes)] else []))

def ofTotals (totals : Totals) : Value :=
  .object [("isRange", .bool totals.isRange), ("min", totals.least.toJson),
    ("max", totals.greatest.toJson), ("bytes", .number totals.space.bytes),
    ("bssBytes", .number totals.space.bss), ("objectBytes", .number totals.space.object)]

def ofReport (parts : Include) (lines : List Line) (totals : Totals) : Value :=
  .object ((if parts.lines && !lines.isEmpty then [("lines", .array (lines.map (ofLine parts)))]
      else []) ++
    (if parts.totals then [("totals", ofTotals totals)] else []))

/-- The document and a line feed. -/
def render (parts : Include) (layout : Json.Layout) (lines : List Line) (totals : Totals) : Bytes :=
  (ofReport parts lines totals).render layout ++ ['\n'.toUInt8]

end Asm68k.Report.Document
