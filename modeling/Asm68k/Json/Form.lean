import Asm68k.Bytes

/-!
The form of a JSON text: numbers, nulls and arrays are kept, and of everything else only that it is
well formed. The text is cut into tokens, which are then nested with a stack.
-/

namespace Asm68k.Json

/-! ### Tokens -/

inductive Token where
  | openArray
  | closeArray
  | openObject
  | closeObject
  | comma
  | colon
  | text
  | number (literal : Bytes)
  | null
  | truth
  deriving DecidableEq, Repr

def isBlank (b : UInt8) : Bool :=
  b == ' '.toUInt8 || b == '\t'.toUInt8 || b == '\n'.toUInt8 || b == '\r'.toUInt8

def isHexDigit (b : UInt8) : Bool :=
  Bytes.isDigit b || ('a'.toUInt8 ≤ b && b ≤ 'f'.toUInt8) || ('A'.toUInt8 ≤ b && b ≤ 'F'.toUInt8)

/-- The bytes, after a backslash, that need no digits. -/
def isEscapeLetter (b : UInt8) : Bool := (Bytes.ofString "\"\\/bfnrt").contains b

inductive TextState where
  | plain
  | escape
  /-- Inside a character code that lacks some digits. -/
  | code (digits : Nat)
  deriving DecidableEq, Repr

/-- The number of bytes up to and with the closing mark. -/
def textLength? : TextState → Bytes → Option Nat
  | _, [] => none
  | .plain, b :: rest =>
    if b = '"'.toUInt8 then some 1
    else if b < ' '.toUInt8 then none
    else (textLength? (if b = '\\'.toUInt8 then .escape else .plain) rest).map (· + 1)
  | .escape, b :: rest =>
    if isEscapeLetter b then (textLength? .plain rest).map (· + 1)
    else if b = 'u'.toUInt8 then (textLength? (.code 3) rest).map (· + 1)
    else none
  | .code digits, b :: rest =>
    if isHexDigit b then
      (textLength? (if digits = 0 then .plain else .code (digits - 1)) rest).map (· + 1)
    else none

def digits? (text : Bytes) : Option (Bytes × Bytes) :=
  let digits := text.takeWhile Bytes.isDigit
  if digits.isEmpty then none else some (digits, text.dropWhile Bytes.isDigit)

/-- The part of a number before the point: zero, or digits that do not begin with zero. -/
def whole? (text : Bytes) : Option (Bytes × Bytes) :=
  match text with
  | b :: rest => if b = '0'.toUInt8 then some ([b], rest) else digits? text
  | [] => none

/-- A point and digits, or nothing. -/
def fraction? (text : Bytes) : Option (Bytes × Bytes) :=
  match text with
  | b :: rest =>
    if b = '.'.toUInt8 then (digits? rest).map fun (digits, rest) => (b :: digits, rest)
    else some ([], text)
  | [] => some ([], [])

def sign (allowed : List Char) : Bytes → Bytes × Bytes
  | b :: rest => if (allowed.map Char.toUInt8).contains b then ([b], rest) else ([], b :: rest)
  | [] => ([], [])

/-- A power of ten, or nothing. -/
def exponent? (text : Bytes) : Option (Bytes × Bytes) :=
  match text with
  | b :: rest =>
    if b = 'e'.toUInt8 ∨ b = 'E'.toUInt8 then
      let (sign, rest) := sign ['+', '-'] rest
      (digits? rest).map fun (digits, rest) => (b :: sign ++ digits, rest)
    else some ([], text)
  | [] => some ([], [])

def number? (text : Bytes) : Option Bytes := do
  let (sign, rest) := sign ['-'] text
  let (whole, rest) ← whole? rest
  let (fraction, rest) ← fraction? rest
  let (exponent, _) ← exponent? rest
  return sign ++ whole ++ fraction ++ exponent

/-- The token that begins with the byte `b`, and the number of further bytes it takes. -/
def tokenAt? (b : UInt8) (rest : Bytes) : Option (Token × Nat) :=
  if b = '['.toUInt8 then some (.openArray, 0)
  else if b = ']'.toUInt8 then some (.closeArray, 0)
  else if b = '\x7b'.toUInt8 then some (.openObject, 0)
  else if b = '\x7d'.toUInt8 then some (.closeObject, 0)
  else if b = ','.toUInt8 then some (.comma, 0)
  else if b = ':'.toUInt8 then some (.colon, 0)
  else if b = '"'.toUInt8 then (textLength? .plain rest).map (.text, ·)
  else if (Bytes.ofString "null").isPrefixOf (b :: rest) then some (.null, 3)
  else if (Bytes.ofString "true").isPrefixOf (b :: rest) then some (.truth, 3)
  else if (Bytes.ofString "false").isPrefixOf (b :: rest) then some (.truth, 4)
  else (number? (b :: rest)).map fun literal => (.number literal, literal.length - 1)

/-- The tokens of a text. The first argument counts the bytes that the token read last still
takes. -/
def tokensFrom? : Nat → Bytes → Option (List Token)
  | _, [] => some []
  | skip + 1, _ :: rest => tokensFrom? skip rest
  | 0, b :: rest =>
    if isBlank b then tokensFrom? 0 rest
    else do
      let (token, more) ← tokenAt? b rest
      return token :: (← tokensFrom? more rest)

/-! ### Nesting -/

inductive Form where
  | null
  | number (literal : Bytes)
  | array (items : List Form)
  | other

/-- A container that is still open; the items of an array stand in reverse order. -/
inductive Frame where
  | array (items : List Form)
  | object

inductive Expected where
  | value
  | itemOrClose
  | name
  | nameOrClose
  | colon
  /-- A comma, the closing bracket, or the end. -/
  | more
  deriving DecidableEq, Repr

structure Nesting where
  frames : List Frame
  expected : Expected
  /-- The value that is complete once no container is open. -/
  result : Form

/-- How deep containers may be nested. -/
def maximalDepth : Nat := 10000

namespace Nesting

def initial : Nesting := ⟨[], .value, .null⟩

/-- Puts a complete value into the innermost container. -/
def complete (form : Form) : List Frame → Nesting
  | [] => ⟨[], .more, form⟩
  | .array items :: frames => ⟨.array (form :: items) :: frames, .more, .null⟩
  | .object :: frames => ⟨.object :: frames, .more, .null⟩

def enter (nesting : Nesting) (frame : Frame) (expected : Expected) : Option Nesting :=
  if nesting.frames.length < maximalDepth then some ⟨frame :: nesting.frames, expected, .null⟩
  else none

def startValue (nesting : Nesting) : Token → Option Nesting
  | .openArray => nesting.enter (.array []) .itemOrClose
  | .openObject => nesting.enter .object .nameOrClose
  | .text | .truth => some (complete .other nesting.frames)
  | .number literal => some (complete (.number literal) nesting.frames)
  | .null => some (complete .null nesting.frames)
  | _ => none

/-- Closes the innermost container with a bracket of its kind. -/
def close (nesting : Nesting) : Token → Option Nesting
  | .closeArray =>
    match nesting.frames with
    | .array items :: frames => some (complete (.array items.reverse) frames)
    | _ => none
  | .closeObject =>
    match nesting.frames with
    | .object :: frames => some (complete .other frames)
    | _ => none
  | _ => none

def step (nesting : Nesting) (token : Token) : Option Nesting :=
  match nesting.expected, token with
  | .value, token => nesting.startValue token
  | .itemOrClose, .closeArray => nesting.close .closeArray
  | .itemOrClose, token => nesting.startValue token
  | .nameOrClose, .closeObject => nesting.close .closeObject
  | .nameOrClose, .text | .name, .text => some { nesting with expected := .colon }
  | .colon, .colon => some { nesting with expected := .value }
  | .more, .comma =>
    match nesting.frames with
    | .array _ :: _ => some { nesting with expected := .value }
    | .object :: _ => some { nesting with expected := .name }
    | [] => none
  | .more, token => nesting.close token
  | _, _ => none

def steps (nesting : Nesting) : List Token → Option Nesting
  | [] => some nesting
  | token :: tokens => do (← nesting.step token).steps tokens

end Nesting

/-- The form of a text that holds one value. -/
def Form.ofText? (text : Bytes) : Option Form := do
  let nesting ← Nesting.initial.steps (← tokensFrom? 0 text)
  if nesting.frames.isEmpty && nesting.expected == .more then some nesting.result else none

end Asm68k.Json
