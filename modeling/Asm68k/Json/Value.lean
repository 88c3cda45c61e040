import Asm68k.Decimal
import Asm68k.Rune.Quoted

/-!
Documents in JSON and their text, on one line or indented.
-/

namespace Asm68k.Json

inductive Value where
  | bool (b : Bool)
  | number (n : Int64)
  | text (s : Bytes)
  | array (items : List Value)
  | object (fields : List (String × Value))

/-! ### Texts -/

/-- A character inside a quoted text. Characters with a meaning in markup, and the two line
separators outside ASCII, are written by their codes. -/
def escape : Rune → Bytes
  | .stray _ => Bytes.ofString "\\ufffd"
  | .scalar c =>
    if c == '"' || c == '\\' then ['\\'.toUInt8, c.toUInt8]
    else if c == '\x08' then Bytes.ofString "\\b"
    else if c == '\x0c' then Bytes.ofString "\\f"
    else if c == '\n' then Bytes.ofString "\\n"
    else if c == '\r' then Bytes.ofString "\\r"
    else if c == '\t' then Bytes.ofString "\\t"
    else if c < ' ' || c == '<' || c == '>' || c == '&' || c == '\u2028' ||
        c == '\u2029' then
      Bytes.ofString "\\u" ++ Rune.hexadecimal 4 c.toNat
    else String.utf8EncodeChar c

def quote (s : Bytes) : Bytes :=
  ['"'.toUInt8] ++ (Rune.ofBytes s).flatMap escape ++ ['"'.toUInt8]

/-! ### Layout -/

inductive Layout where
  | compact
  /-- One item a line, two blanks a level. -/
  | indented
  deriving DecidableEq, Repr

namespace Layout

/-- What stands before an item or a closing bracket at some depth. -/
def lineBreak (depth : Nat) : Layout → Bytes
  | .compact => []
  | .indented => '\n'.toUInt8 :: List.replicate (2 * depth) ' '.toUInt8

/-- What stands between a field's name and its value. -/
def colon : Layout → Bytes
  | .compact => [':'.toUInt8]
  | .indented => [':'.toUInt8, ' '.toUInt8]

end Layout

/-- What stands before an item: a comma unless it is the first, and the line break. -/
def separator (layout : Layout) (depth : Nat) (first : Bool) : Bytes :=
  (if first then [] else [','.toUInt8]) ++ layout.lineBreak depth

namespace Value

mutual

/-- Adds the parts of the text, the last one first. -/
def write (layout : Layout) (depth : Nat) (parts : List Bytes) : Value → List Bytes
  | .bool true => Bytes.ofString "true" :: parts
  | .bool false => Bytes.ofString "false" :: parts
  | .number n => Decimal.ofInt64 n :: parts
  | .text s => quote s :: parts
  | .array [] => Bytes.ofString "[]" :: parts
  | .array (item :: items) =>
    let parts := separator layout (depth + 1) true :: ['['.toUInt8] :: parts
    let parts := writeItems layout (depth + 1) (item.write layout (depth + 1) parts) items
    [']'.toUInt8] :: layout.lineBreak depth :: parts
  | .object [] => Bytes.ofString "\x7b\x7d" :: parts
  | .object ((name, value) :: fields) =>
    let parts := separator layout (depth + 1) true :: ['\x7b'.toUInt8] :: parts
    let parts := layout.colon :: quote (Bytes.ofString name) :: parts
    let parts := writeFields layout (depth + 1) (value.write layout (depth + 1) parts) fields
    ['\x7d'.toUInt8] :: layout.lineBreak depth :: parts

def writeItems (layout : Layout) (depth : Nat) (parts : List Bytes) : List Value → List Bytes
  | [] => parts
  | item :: items =>
    writeItems layout depth (item.write layout depth (separator layout depth false :: parts)) items

def writeFields (layout : Layout) (depth : Nat) (parts : List Bytes) :
    List (String × Value) → List Bytes
  | [] => parts
  | (name, value) :: fields =>
    let parts := layout.colon :: quote (Bytes.ofString name) :: separator layout depth false :: parts
    writeFields layout depth (value.write layout depth parts) fields

end

def render (layout : Layout) (value : Value) : Bytes := (value.write layout 0 []).reverse.flatten

end Value

end Asm68k.Json
