import Asm68k.Directive
import Asm68k.Lexeme
import Asm68k.Mnemonic
import Asm68k.Mode.Operand
import Asm68k.Size

/-!
Tokens: the pieces of a source line with what they mean. The first piece past the label is the
operation, a size letter may follow on it after a dot, and the rest are arguments.
-/

namespace Asm68k

inductive TokenKind where
  | comment
  | label
  | mnemonic (mnemonic : Mnemonic)
  | directive (directive : Directive)
  | qualifier (size : Size)
  /-- A quotation with its contents. -/
  | quotation (contents : Bytes)
  /-- A numbered placeholder of a macro. -/
  | placeholder (index : Nat)
  /-- The mark `\@` for the number of an expansion. -/
  | counter
  /-- Anything else; the operation has no mode. -/
  | operand (mode : Option Mode)
  deriving DecidableEq, Repr

def TokenKind.name : TokenKind → String
  | .comment => "comment"
  | .label => "label"
  | .mnemonic _ => "mnemonic"
  | .directive _ => "directive"
  | .qualifier _ => "qualifier"
  | .quotation _ => "string"
  | .placeholder _ => "macro argument"
  | .counter => "macro counter"
  | .operand _ => "operand"

structure Token where
  lexeme : Lexeme
  kind : TokenKind
  deriving DecidableEq, Repr

namespace Token

def text (token : Token) : Bytes := token.lexeme.text

def start (token : Token) : Nat := token.lexeme.start

/-! ### Quotations and placeholders -/

/-- The contents of a quotation: the text between its marks, of which an inner pair stands for one
mark. The closing mark may be missing. -/
def contents (mark : UInt8) (text : Bytes) : Bytes :=
  let inner : Bytes := if text.getLast? == some mark then text.dropLast else text
  inner.replaceAll [mark, mark] [mark]

/-- The largest number a placeholder can have; longer ones stop there. -/
def placeholderLimit : Nat := 0x7FFF_FFFF_FFFF_FFFF

def placeholderIndex (digits : Bytes) : Nat :=
  min placeholderLimit (digits.foldl (fun n b => 10 * n + (b.toNat - '0'.toNat)) 0)

/-- What a piece is by itself; `mode` is the mode for a plain operand. -/
def plainKind (text : Bytes) (mode : Option Mode) : TokenKind :=
  match text with
  | [] => .operand mode
  | b :: rest =>
    if Lexeme.Scan.isQuoteMark b then .quotation (contents b rest)
    else if b == '\\'.toUInt8 && rest == ['@'.toUInt8] then .counter
    else if b == '\\'.toUInt8 && !rest.isEmpty && rest.all Bytes.isDigit then
      .placeholder (placeholderIndex rest)
    else .operand mode

/-! ### Classification -/

inductive Stage where
  | beforeOperation
  /-- The operation was the last piece. -/
  | atOperation (isMnemonic : Bool)
  | afterOperation
  deriving DecidableEq, Repr

def operationKind (text : Bytes) : TokenKind :=
  match Mnemonic.ofText? text with
  | some mnemonic => .mnemonic mnemonic
  | none =>
    match Directive.ofText? text with
    | some directive => .directive directive
    | none => plainKind text none

/-- The size that a single letter after the operation gives. On instructions a short operand is a
byte. -/
def qualifier? (isMnemonic : Bool) (text : Bytes) : Option Size :=
  if text.length == 1 then
    (Size.ofText? text).map fun size => if size = .short ∧ isMnemonic then .byte else size
  else none

def isComment (text : Bytes) : Bool :=
  text.head? == some ';'.toUInt8 || text.head? == some '*'.toUInt8

def argumentKind (text : Bytes) : TokenKind := plainKind text (some (Mode.ofOperand text))

/-- The kind of a piece and the stage after it. -/
def classify (stage : Stage) (l : Lexeme) : TokenKind × Stage :=
  if isComment l.text then (.comment, stage)
  else if l.start == 0 then (.label, stage)
  else match stage with
    | .beforeOperation =>
      let kind := operationKind l.text
      (kind, .atOperation (kind matches .mnemonic _))
    | .atOperation isMnemonic =>
      match if l.afterDot then qualifier? isMnemonic l.text else none with
      | some size => (.qualifier size, .afterOperation)
      | none => (argumentKind l.text, .afterOperation)
    | .afterOperation => (argumentKind l.text, .afterOperation)

def ofLexemes (stage : Stage) : List Lexeme → List Token
  | [] => []
  | l :: rest =>
    let (kind, stage) := classify stage l
    ⟨l, kind⟩ :: ofLexemes stage rest

def ofLine (line : Bytes) : List Token := ofLexemes .beforeOperation (Lexeme.ofLine line)

end Token

end Asm68k
