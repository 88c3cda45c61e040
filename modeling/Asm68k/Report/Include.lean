import Asm68k.Rune.Case
import Asm68k.Rune.Space

/-!
Which parts a report has.
-/

namespace Asm68k.Report

structure Include where
  text : Bool
  timings : Bool
  bytes : Bool
  totals : Bool
  deriving DecidableEq, Repr

namespace Include

def none : Include := ⟨false, false, false, false⟩

def all : Include := ⟨true, true, true, true⟩

/-- The names of all parts. -/
def standardList : String := "text,timings,bytes,totals"

/-- Whether the report has lines at all. -/
def lines (parts : Include) : Bool := parts.text || parts.timings || parts.bytes

/-- The parts by name, in alphabetical order. -/
def names (parts : Include) : List String :=
  (if parts.bytes then ["bytes"] else []) ++ (if parts.text then ["text"] else []) ++
    (if parts.timings then ["timings"] else []) ++ (if parts.totals then ["totals"] else [])

structure Unknown where
  name : Bytes
  deriving DecidableEq, Repr

def Unknown.message (unknown : Unknown) : Bytes :=
  Bytes.ofString "unknown output element '" ++ unknown.name ++ Bytes.ofString "'"

/-- Adds the part with the given name; an empty name adds nothing. -/
def add (parts : Include) (name : Bytes) : Except Unknown Include :=
  if name = [] then .ok parts
  else if name = Bytes.ofString "text" then .ok { parts with text := true }
  else if name = Bytes.ofString "timings" then .ok { parts with timings := true }
  else if name = Bytes.ofString "bytes" then .ok { parts with bytes := true }
  else if name = Bytes.ofString "totals" then .ok { parts with totals := true }
  else .error ⟨name⟩

/-- The parts in a list of names with commas, in either case and with white space around them. -/
def ofList (list : Bytes) : Except Unknown Include :=
  (list.lower.split ','.toUInt8).foldlM (fun parts name => parts.add name.trim) none

end Include

end Asm68k.Report
