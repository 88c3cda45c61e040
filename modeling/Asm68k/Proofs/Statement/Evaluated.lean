import Asm68k.Statement.Length
import Asm68k.Statement.Times
import Asm68k.Proofs.Expression.Lookups

/-!
The expressions that are evaluated for a statement. Its length and its times depend on the symbols
only through their values.
-/

namespace Asm68k

/-- The directive has the value of its first operand computed. An assignment does so for its
label. -/
def Directive.evaluates (labelled : Bool) : Directive → Bool
  | .dcb | .ds | .beginRepeat => true
  | .assign _ => labelled
  | _ => false

namespace Statement

/-- An instruction has an immediate source computed if its time depends on how often it repeats a
unit. -/
def timesEvaluate (mnemonic : Mnemonic) (size : Option Size) (operands : List Operand) : Bool :=
  operands.head?.bind Operand.mode? == some .immediate &&
    ((Timing.lookup? (keyOf mnemonic size operands)).bind (·.perUnit)).isSome

/-- The text of the first operand, if there is one. -/
def firstText (operands : List Operand) : List Bytes := operands.head?.toList.map (·.text)

def evaluated (statement : Statement) : List Bytes :=
  match statement.opcode with
  | some ⟨.directive directive, _, _⟩ =>
    if directive.evaluates statement.label.isSome then firstText statement.operands else []
  | some ⟨.instruction mnemonic, _, size⟩ =>
    if timesEvaluate mnemonic size statement.operands then firstText statement.operands else []
  | _ => []

section

variable {symbols symbols' : Bytes → Option Int64} {statement : Statement}

theorem reservedLength_congr {size : Option Size} {operands : List Operand}
    (same : ∀ text ∈ firstText operands,
      Expression.value? symbols' text = Expression.value? symbols text) :
    reservedLength symbols' size operands = reservedLength symbols size operands := by
  cases operands with
  | nil => rfl
  | cons operand operands => rw [reservedLength, reservedLength, same _ List.mem_cons_self]

theorem length_congr
    (same : ∀ text ∈ statement.evaluated,
      Expression.value? symbols' text = Expression.value? symbols text) :
    statement.length symbols' = statement.length symbols := by
  unfold length
  unfold evaluated at same
  split
  · rfl
  · rename_i directive start size spelled
    rw [spelled] at same
    unfold directiveLength
    cases directive with
    | dcb | ds => exact reservedLength_congr same
    | _ => rfl
  · rfl

theorem repetitions?_congr {mnemonic : Mnemonic} {operands : List Operand}
    (same : operands.head?.bind Operand.mode? = some .immediate →
      ∀ text ∈ firstText operands,
        Expression.value? symbols' text = Expression.value? symbols text) :
    repetitions? symbols' mnemonic operands = repetitions? symbols mnemonic operands := by
  have immediate :
      (if operands.head?.bind Operand.mode? == some .immediate then
        operands.head?.bind fun operand => Expression.value? symbols' operand.text else none) =
      (if operands.head?.bind Operand.mode? == some .immediate then
        operands.head?.bind fun operand => Expression.value? symbols operand.text else none) := by
    split
    · rename_i mode
      cases operands with
      | nil => rfl
      | cons operand operands => exact same (beq_iff_eq.mp mode) _ List.mem_cons_self
    · rfl
  unfold repetitions?
  dsimp only
  rw [immediate]

theorem times?_congr
    (same : ∀ text ∈ statement.evaluated,
      Expression.value? symbols' text = Expression.value? symbols text) :
    statement.times? symbols' = statement.times? symbols := by
  unfold times?
  unfold evaluated at same
  split
  · rename_i mnemonic start size spelled
    rw [spelled] at same
    dsimp only at same
    cases found : Timing.lookup? (keyOf mnemonic size statement.operands) with
    | none => rfl
    | some entry =>
      simp only [Option.map_some, Option.some.injEq]
      unfold timesOf
      cases unit : entry.perUnit with
      | none => rfl
      | some perUnit =>
        -- Only now does the source matter, and then it is among the evaluated expressions.
        have repeated : repetitions? symbols' mnemonic statement.operands =
            repetitions? symbols mnemonic statement.operands := by
          apply repetitions?_congr
          intro mode
          rw [if_pos] at same
          · exact same
          · simp [timesEvaluate, mode, found, unit]
        simp only [Option.bind_some, repeated]
  · rfl

end

end Statement

end Asm68k
