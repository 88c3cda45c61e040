import Std.Data.ExtTreeMap
import Asm68k.Timing.Rows

/-!
The table of execution times, by the key of the instruction form.
-/

namespace Asm68k.Timing

abbrev Table := Std.ExtTreeMap Bytes Entry compare

/-- Adds the forms of a row, in place of earlier ones with the same key. -/
def Table.addRow (table : Table) (row : Row) : Table :=
  row.entries.foldl (fun table (key, entry) => table.insert key entry) table

def table : Table := rows.foldl Table.addRow ∅

def lookup? (key : Bytes) : Option Entry := table[key]?

/-- The mnemonic part of a key: what stands before the first dot or blank. -/
def keyName (key : Bytes) : Bytes :=
  key.takeWhile fun b => b != '.'.toUInt8 && b != ' '.toUInt8

/-- The forms of one mnemonic in the order of their keys. -/
def entriesOf (name : Bytes) : List (Bytes × Entry) :=
  table.toList.filter fun (key, _) => keyName key == name

end Asm68k.Timing
