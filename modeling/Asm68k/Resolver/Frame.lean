import Asm68k.Listing.Totals
import Asm68k.Resolver.State
import Asm68k.Statement.Length
import Asm68k.Statement.Substitution
import Asm68k.Statement.Times

/-!
Resolving a sequence of statements: the source itself or the body of an expansion. How expansions
are resolved is a parameter here.
-/

namespace Asm68k.Resolver

/-- Resolves the statements of an expansion that begins at an address. -/
abbrev Expander := Int64 → List Statement → Resolution (List Line)

/-- What the statements that follow are collected for. -/
inductive Pending where
  | nothing
  | macroBody (name : Bytes) (body : Array Statement)
  /-- The block that `start` begins; `nested` counts the blocks inside it that are still open. -/
  | repeatBody (start : Statement) (body : Array Statement) (nested : Nat)

structure Frame where
  address : Int64
  pending : Pending

/-- A resolved line, and what is collected after it. -/
abbrev Step := Line × Pending

open Resolution

/-! ### Labels and sections -/

/-- Gives a label the address of its line. -/
def defineLabel (address : Int64) (statement : Statement) : Resolution Unit :=
  match statement.label with
  | some label => define label.name address
  | none => pure ()

/-- Section names that begin so, in either case, are for reserved memory. -/
def bssName : Pattern := .word "bss"

/-- Whether a section directive selects reserved memory. -/
def selectsBss (directive : Directive) (operands : List Operand) : Bool :=
  directive matches .segment .bss _ ||
    operands.any fun operand => bssName.fitsFront (Rune.ofBytes operand.text)

/-! ### Expansions -/

/-- Resolves the body as often as `count` says, one copy after the other. The copies so far stand
in reverse order. -/
def repeatFrom (expand : Expander) (body : List Statement) :
    Nat → Int64 → List (List Line) → Resolution (List (List Line))
  | 0, _, copies => pure copies
  | count + 1, address, copies => do
    let lines ← expand address body
    repeatFrom expand body count (address + (Totals.ofLines lines).space.bytes) (lines :: copies)

/-- The number of repetitions: the value of the first operand, or zero without one. -/
def repeatCount (symbols : Symbols) (start : Statement) : Int64 :=
  match start.operands with
  | [] => 0
  | operand :: _ => (Expression.value? (symbols[·]?) operand.text).getD 0

/-- The line that ends a block, with the block below it. -/
def resolveRepeat (expand : Expander) (address : Int64) (start : Statement)
    (body : List Statement) (text : Bytes) : Resolution Line := do
  let count := repeatCount (← get).symbols start
  report (.blockRepeated count body.length)
  let copies ← repeatFrom expand body count.toInt.toNat address []
  return .ofExpansion text (← get).bss copies.reverse.flatten

/-- The line of an invocation, with the body of the macro below it. A macro that is defined only
further down is known in the last pass. -/
def resolveInvocation (settings : Settings) (expand : Expander) (address : Int64) (name : Bytes)
    (statement : Statement) : Resolution Line := do
  match (← get).macros[name]? with
  | none =>
    if settings.isLastPass then report (.macroUndefined name)
    return .blank statement.text
  | some body =>
    let arguments := statement.operands.map (·.text)
    let lines ← expand address (body.map fun s => .ofLine (substitute arguments s.text))
    return .ofExpansion statement.text (← get).bss lines

/-! ### Statements -/

/-- A statement that stands for itself, with its size and time. -/
def resolvePlain (address : Int64) (statement : Statement) : Resolution Line := do
  defineLabel address statement
  let s ← get
  return .plain
    { text := statement.text
      bytes := statement.length (s.symbols[·]?)
      bss := s.bss
      times := statement.times? (s.symbols[·]?) }

/-- Gives the label the value of the first operand, if it has one. -/
def resolveAssignment (label : Label) (statement : Statement) : Resolution Unit := do
  match statement.operands with
  | [] => pure ()
  | operand :: _ =>
    match Expression.value? ((← get).symbols[·]?) operand.text with
    | some value => define label.name value
    | none => pure ()

/-- The name that a macro is defined under: the label or else the first operand. -/
def macroName? (statement : Statement) : Option Bytes :=
  match statement.label, statement.operands with
  | some label, _ => some label.name.upper
  | none, operand :: _ => some operand.text.upper
  | none, [] => none

def resolveDirective (address : Int64) (directive : Directive) (statement : Statement) :
    Resolution Step := do
  let blank := Line.blank statement.text
  match directive, statement.label with
  | .assign _, some label =>
    resolveAssignment label statement
    return (blank, .nothing)
  | .beginMacro, _ =>
    match macroName? statement with
    | none => return (blank, .nothing)
    | some name =>
      report (.macroBegun name)
      return (blank, .macroBody name #[])
  | .beginRepeat, _ => return (blank, .repeatBody statement #[] 0)
  | .namedSection, _ | .segment _ _, _ =>
    modify fun s => { s with bss := selectsBss directive statement.operands }
    return (blank, .nothing)
  | _, _ => return (← resolvePlain address statement, .nothing)

def resolveStatement (settings : Settings) (expand : Expander) (address : Int64)
    (statement : Statement) : Resolution Step := do
  match statement.opcode with
  | none =>
    if statement.label.isSome then return (← resolvePlain address statement, .nothing)
    else return (.blank statement.text, .nothing)
  | some opcode =>
    match opcode.operation with
    | .instruction _ => return (← resolvePlain address statement, .nothing)
    | .directive directive => resolveDirective address directive statement
    | .invocation name =>
      defineLabel address statement
      return (← resolveInvocation settings expand address name statement, .nothing)

/-! ### Sequences -/

/-- Resolves or collects one statement. -/
def step (settings : Settings) (expand : Expander) (frame : Frame) (statement : Statement) :
    Resolution Step := do
  let blank := Line.blank statement.text
  match frame.pending with
  | .nothing => resolveStatement settings expand frame.address statement
  | .macroBody name body =>
    if statement.directive? = some .endMacro then
      defineMacro name body.toList
      return (blank, .nothing)
    else return (blank, .macroBody name (body.push statement))
  | .repeatBody start body nested =>
    match statement.directive?, nested with
    | some .endRepeat, 0 =>
      return (← resolveRepeat expand frame.address start body.toList statement.text, .nothing)
    | some .endRepeat, nested + 1 => return (blank, .repeatBody start (body.push statement) nested)
    | some .beginRepeat, _ => return (blank, .repeatBody start (body.push statement) (nested + 1))
    | _, _ => return (blank, .repeatBody start (body.push statement) nested)

/-- The end of a sequence. A macro that is still open keeps what was collected. -/
def finish : Pending → Resolution Unit
  | .nothing => pure ()
  | .macroBody name body => do
    defineMacro name body.toList
    report (.macroUnclosed name)
  | .repeatBody start _ _ => report (.blockUnclosed start.text)

/-- Resolves statements in order, each at the address after the lines before it. The lines so far
stand in reverse order. -/
def resolveFrom (settings : Settings) (expand : Expander) (frame : Frame) (lines : List Line) :
    List Statement → Resolution (List Line)
  | [] => do
    finish frame.pending
    return lines.reverse
  | statement :: statements => do
    let (line, pending) ← step settings expand frame statement
    resolveFrom settings expand ⟨frame.address + line.bytes, pending⟩ (line :: lines) statements

end Asm68k.Resolver
