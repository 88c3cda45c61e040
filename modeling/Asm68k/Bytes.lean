/-!
Byte strings. Source text, messages and reports are lists of bytes, so text that is not valid UTF-8
passes through unharmed and every position counts bytes.
-/

namespace Asm68k

abbrev Bytes := List UInt8

namespace Bytes

def ofString (s : String) : Bytes := s.toList.flatMap String.utf8EncodeChar

def isDigit (b : UInt8) : Bool := '0'.toUInt8 ≤ b && b ≤ '9'.toUInt8

/-! ### Cutting -/

/-- The parts between the occurrences of `mark`: one more than there are marks. -/
def split (mark : UInt8) (text : Bytes) : List Bytes :=
  let (part, parts) := text.foldr add ([], [])
  part :: parts
where
  add (b : UInt8) : Bytes × List Bytes → Bytes × List Bytes
    | (part, parts) => if b == mark then ([], part :: parts) else (b :: part, parts)

/-- What stands before and after the first `mark`. -/
def cut? (mark : UInt8) (text : Bytes) : Option (Bytes × Bytes) :=
  match text.dropWhile (· != mark) with
  | [] => none
  | _ :: after => some (text.takeWhile (· != mark), after)

/-- The lines of a text. A line ends at a line feed, a carriage return, or both in this order. -/
def lines (text : Bytes) : List Bytes :=
  let (line, rest, _) := text.foldr add ([], [], false)
  line :: rest
where
  /-- Extends the lines to the left; the flag says that they begin with a line feed. -/
  add (b : UInt8) : Bytes × List Bytes × Bool → Bytes × List Bytes × Bool
    | (line, rest, atFeed) =>
      if b == '\n'.toUInt8 then ([], line :: rest, true)
      else if b == '\r'.toUInt8 then
        if atFeed then (line, rest, false) else ([], line :: rest, false)
      else (b :: line, rest, false)

/-- Replaces the occurrences of the non-empty text `old`, leftmost first and without overlap. -/
def replaceAll (text old new : Bytes) : Bytes := go 0 text
where
  /-- The first argument counts the bytes of an occurrence that are still to be dropped. -/
  go : Nat → Bytes → Bytes
    | _, [] => []
    | skip + 1, _ :: rest => go skip rest
    | 0, b :: rest =>
      if old.isPrefixOf (b :: rest) then new ++ go (old.length - 1) rest else b :: go 0 rest

/-- The parts in order, with `separator` between neighbours. -/
def join (separator : Bytes) : List Bytes → Bytes
  | [] => []
  | [part] => part
  | part :: parts => part ++ separator ++ join separator parts

end Bytes

end Asm68k
