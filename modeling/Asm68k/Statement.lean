import Asm68k.Expression
import Asm68k.Register
import Asm68k.Token

/-!
Statements: a source line as label, operation and operands. An operation that is neither an
instruction nor a directive names a macro.
-/

namespace Asm68k

structure Label where
  name : Bytes
  start : Nat
  deriving DecidableEq, Repr

namespace Label

/-- Local labels begin with a dot. -/
def isLocal (label : Label) : Bool := label.name.head? == some '.'.toUInt8

/-- The label has a part that stands for the number of an expansion. -/
def isNumbered (label : Label) : Bool := label.name.contains '@'.toUInt8

end Label

inductive Operation where
  | instruction (mnemonic : Mnemonic)
  | directive (directive : Directive)
  /-- A macro by its name in upper case. -/
  | invocation (name : Bytes)
  deriving DecidableEq, Repr

def Operation.name : Operation → Bytes
  | .instruction m => m.text
  | .directive d => d.text
  | .invocation name => name

structure Opcode where
  operation : Operation
  start : Nat
  /-- The size that is written. -/
  size : Option Size
  deriving DecidableEq, Repr

inductive OperandKind where
  /-- An address or a value. Immediate values without symbols and the sizes of register lists are
  known at once. -/
  | address (mode : Mode) (value : Option Int64)
  | quotation (contents : Bytes)
  | placeholder (index : Nat)
  | counter
  deriving DecidableEq, Repr

structure Operand where
  text : Bytes
  start : Nat
  kind : OperandKind
  deriving DecidableEq, Repr

def Operand.mode? (operand : Operand) : Option Mode :=
  match operand.kind with
  | .address mode _ => some mode
  | _ => none

structure Statement where
  text : Bytes
  label : Option Label
  opcode : Option Opcode
  operands : List Operand
  comment : Bytes
  deriving DecidableEq, Repr

/-! ### From tokens -/

namespace Token

def label? (token : Token) : Option Label :=
  match token.kind with
  | .label => some ⟨token.text, token.start⟩
  | _ => none

def comment? (token : Token) : Option Bytes :=
  match token.kind with
  | .comment => some token.text
  | _ => none

def size? (token : Token) : Option Size :=
  match token.kind with
  | .qualifier size => some size
  | _ => none

/-- The token is the operation or an argument. -/
def isWord (token : Token) : Bool :=
  match token.kind with
  | .comment | .label | .qualifier _ => false
  | _ => true

def operation (token : Token) : Operation :=
  match token.kind with
  | .mnemonic m => .instruction m
  | .directive d => .directive d
  | _ => .invocation token.text.upper

/-- What is known of an operand before any symbol has a value. -/
def knownValue (mode : Mode) (text : Bytes) : Option Int64 :=
  match mode with
  | .immediate => Expression.value? (fun _ => none) text
  | .registers => some (Int64.ofNat (Register.countList text))
  | _ => none

def operandKind (token : Token) : OperandKind :=
  match token.kind with
  | .quotation contents => .quotation contents
  | .placeholder index => .placeholder index
  | .counter => .counter
  | .operand (some mode) => .address mode (knownValue mode token.text)
  | _ => .address .absLong none

def operand (token : Token) : Operand := ⟨token.text, token.start, token.operandKind⟩

end Token

namespace Statement

def ofTokens (text : Bytes) (tokens : List Token) : Statement :=
  let words := tokens.filter Token.isWord
  let size := tokens.findSome? Token.size?
  { text
    label := tokens.findSome? Token.label?
    opcode := words.head?.map fun token => ⟨token.operation, token.start, size⟩
    operands := words.tail.map Token.operand
    comment := (tokens.findSome? Token.comment?).getD [] }

def ofLine (line : Bytes) : Statement := ofTokens line (Token.ofLine line)

/-! ### Kinds -/

def mnemonic? (statement : Statement) : Option Mnemonic :=
  match statement.opcode with
  | some ⟨.instruction m, _, _⟩ => some m
  | _ => none

def directive? (statement : Statement) : Option Directive :=
  match statement.opcode with
  | some ⟨.directive d, _, _⟩ => some d
  | _ => none

inductive Kind where
  | empty
  | label
  | instruction
  | directive
  | invocation
  deriving DecidableEq, Repr

def Kind.name : Kind → String
  | .empty => "empty"
  | .label => "label"
  | .instruction => "instruction"
  | .directive => "directive"
  | .invocation => "macro"

def kind (statement : Statement) : Kind :=
  match statement.opcode with
  | some opcode =>
    match opcode.operation with
    | .instruction _ => .instruction
    | .directive _ => .directive
    | .invocation _ => .invocation
  | none => if statement.label.isSome then .label else .empty

end Statement

end Asm68k
