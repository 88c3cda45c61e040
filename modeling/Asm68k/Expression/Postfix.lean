import Asm68k.Expression.Item

/-!
Expressions in postfix order. The items are sorted with a stack of operators that still wait for
their right operand, and a small machine runs the result.
-/

namespace Asm68k.Expression

inductive Instruction where
  | push (v : Int64)
  | apply (op : Operator)
  deriving DecidableEq, Repr

/-! ### Sorting -/

/-- The state of the sorting between two items. -/
structure Yard where
  /-- The instructions so far, the last one first. -/
  output : List Instruction
  /-- Operators and, as `none`, open parentheses; the newest first. -/
  waiting : List (Option Operator)
  afterValue : Bool

namespace Yard

def initial : Yard := ⟨[], [], false⟩

/-- Moves the waiting operators of at least the given rank to the output, up to a parenthesis. -/
def collapse (rank : Nat) (output : List Instruction) :
    List (Option Operator) → List Instruction × List (Option Operator)
  | some op :: waiting =>
    if rank ≤ op.rank then collapse rank (.apply op :: output) waiting
    else (output, some op :: waiting)
  | waiting => (output, waiting)

/-- Moves the operators after the newest parenthesis to the output and drops the parenthesis. -/
def closeGroup (output : List Instruction) :
    List (Option Operator) → Option (List Instruction × List (Option Operator))
  | [] => none
  | none :: waiting => some (output, waiting)
  | some op :: waiting => closeGroup (.apply op :: output) waiting

/-- Moves all waiting operators to the output; no parenthesis may be left. -/
def drain (output : List Instruction) : List (Option Operator) → Option (List Instruction)
  | [] => some output
  | none :: _ => none
  | some op :: waiting => drain (.apply op :: output) waiting

def pushValue (yard : Yard) (v : Int64) : Except Error Yard :=
  if yard.afterValue then .error .malformed
  else .ok { yard with output := .push v :: yard.output, afterValue := true }

def pushOperator (yard : Yard) : Operator → Except Error Yard
  | .unary op =>
    .ok { yard with waiting := some (.unary op) :: yard.waiting, afterValue := false }
  | .binary op =>
    if yard.afterValue then
      let (output, waiting) := collapse op.rank yard.output yard.waiting
      .ok ⟨output, some (.binary op) :: waiting, false⟩
    else .error .malformed

def step (symbols : Bytes → Option Int64) (yard : Yard) : Item → Except Error Yard
  | .value v => yard.pushValue v
  | .symbol name =>
    match symbols name with
    | none => .error (.unknownSymbol name)
    | some v => yard.pushValue v
  | .operator op => yard.pushOperator op
  | .opening =>
    if yard.afterValue then .error .malformed
    else .ok { yard with waiting := none :: yard.waiting }
  | .closing =>
    if yard.afterValue then
      match closeGroup yard.output yard.waiting with
      | none => .error .malformed
      | some (output, waiting) => .ok { yard with output, waiting }
    else .error .malformed
  | .bad error => .error error

def steps (symbols : Bytes → Option Int64) (yard : Yard) : List Item → Except Error Yard
  | [] => .ok yard
  | item :: items => do steps symbols (← yard.step symbols item) items

def finish (yard : Yard) : Except Error (List Instruction) :=
  if yard.afterValue then
    match drain yard.output yard.waiting with
    | none => .error .malformed
    | some output => .ok output.reverse
  else .error .malformed

end Yard

def compile (symbols : Bytes → Option Int64) (items : List Item) :
    Except Error (List Instruction) := do
  (← Yard.initial.steps symbols items).finish

/-! ### Running -/

inductive Halt where
  /-- An operand is missing, or more than one value is left. -/
  | stuck
  | divisionByZero
  deriving DecidableEq, Repr

def Instruction.run : Instruction → List Int64 → Except Halt (List Int64)
  | .push v, stack => .ok (v :: stack)
  | .apply (.unary op), a :: stack => .ok (op.apply a :: stack)
  | .apply (.binary op), b :: a :: stack =>
    match op.apply a b with
    | some v => .ok (v :: stack)
    | none => .error .divisionByZero
  | _, _ => .error .stuck

def runFrom (stack : List Int64) : List Instruction → Except Halt (List Int64)
  | [] => .ok stack
  | instruction :: program => do runFrom (← instruction.run stack) program

def run (program : List Instruction) : Except Halt Int64 := do
  match ← runFrom [] program with
  | [v] => .ok v
  | _ => .error .stuck

end Asm68k.Expression
