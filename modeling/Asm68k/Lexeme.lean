import Asm68k.Bytes

/-!
The pieces of a source line, found by one walk over its bytes. Blanks, commas and colons separate
pieces; inside quotes and parentheses they do not. A dot separates only up to the end of the
operation, a semicolon begins a comment, and so does an asterisk between pieces.
-/

namespace Asm68k

structure Lexeme where
  start : Nat
  text : Bytes
  /-- The piece follows directly on a separating dot. -/
  afterDot : Bool
  deriving DecidableEq, Repr

namespace Lexeme

def stop (l : Lexeme) : Nat := l.start + l.text.length

structure Scan where
  /-- The mark that closes the open quotation. -/
  quote : Option UInt8
  /-- Opening minus closing parentheses outside quotations. -/
  depth : Int
  /-- Start of the piece in progress, and its bytes in reverse order. -/
  piece : Option (Nat × Bytes)
  /-- A separating dot has just been passed. -/
  afterDot : Bool
  /-- The operation has been read, so dots no longer separate. -/
  operationDone : Bool

namespace Scan

def initial : Scan := ⟨none, 0, none, false, false⟩

def isQuoteMark (b : UInt8) : Bool := b == '"'.toUInt8 || b == '\''.toUInt8

def isSeparator (b : UInt8) : Bool :=
  b == ' '.toUInt8 || b == '\t'.toUInt8 || b == ','.toUInt8 || b == ':'.toUInt8

/-- The quotation after a byte: a mark opens one or closes its own. -/
def quoteAfter (quote : Option UInt8) (b : UInt8) : Option UInt8 :=
  if isQuoteMark b then
    match quote with
    | none => some b
    | some mark => if mark == b then none else some mark
  else quote

/-- Updates quotation and depth for a byte. -/
def note (scan : Scan) (b : UInt8) : Scan :=
  let quote := quoteAfter scan.quote b
  let depth :=
    if quote.isSome then scan.depth
    else if b == '('.toUInt8 then scan.depth + 1
    else if b == ')'.toUInt8 then scan.depth - 1
    else scan.depth
  { scan with quote, depth }

/-- Separators are ordinary bytes here. -/
def isSheltered (scan : Scan) : Bool := scan.quote.isSome || 0 < scan.depth

/-- Takes the byte at position `i` into the piece in progress, or begins one with it. -/
def take (scan : Scan) (i : Nat) (b : UInt8) : Scan :=
  match scan.piece with
  | none => { scan with piece := some (i, [b]) }
  | some (start, bytes) => { scan with piece := some (start, b :: bytes) }

def finished (scan : Scan) : List Lexeme :=
  match scan.piece with
  | none => []
  | some (start, bytes) => [⟨start, bytes.reverse, scan.afterDot⟩]

/-- Ends the piece in progress. The operation is done when a piece past the first column ends
otherwise than by a dot. -/
def close (scan : Scan) (dot : Bool) : Scan :=
  match scan.piece with
  | none => { scan with afterDot := false }
  | some (start, _) =>
    { scan with
      piece := none
      afterDot := dot
      operationDone := scan.operationDone || (0 < start && !dot) }

/-- Whether a dot ends the piece in progress. -/
def splitsOnDot (scan : Scan) : Bool :=
  match scan.piece with
  | none => false
  | some (start, _) => 0 < start && !scan.operationDone

end Scan

/-- The pieces of the rest of a line, which begins at position `i`. -/
def scanFrom (scan : Scan) (i : Nat) : Bytes → List Lexeme
  | [] => scan.finished
  | b :: rest =>
    let scan := scan.note b
    if scan.isSheltered then scanFrom (scan.take i b) (i + 1) rest
    else if b == ';'.toUInt8 || (b == '*'.toUInt8 && scan.piece.isNone) then
      scan.finished ++ [⟨i, b :: rest, false⟩]
    else if b == '='.toUInt8 then
      scan.finished ++ ⟨i, [b], false⟩ ::
        scanFrom { scan.close false with operationDone := true } (i + 1) rest
    else if Scan.isSeparator b then
      scan.finished ++ scanFrom (scan.close false) (i + 1) rest
    else if b == '.'.toUInt8 && scan.splitsOnDot then
      scan.finished ++ scanFrom (scan.close true) (i + 1) rest
    else scanFrom (scan.take i b) (i + 1) rest

def ofLine (line : Bytes) : List Lexeme := scanFrom .initial 0 line

end Lexeme

end Asm68k
