import Mathlib.Data.List.Forall2
import Asm68k.Statement.Length
import Asm68k.Statement.Times

/-!
Operands that make no difference to an instruction. Of most addressing modes only the mode counts,
so the length and the times stay when such an operand is written in another way.
-/

namespace Asm68k

/-- The operands are the same, or they have one mode in which the text does not count. -/
inductive Operand.Alike : Operand → Operand → Prop
  | refl (operand : Operand) : Alike operand operand
  | address {operand operand' : Operand} {mode : Mode} (kind : operand.kind = .address mode none)
      (kind' : operand'.kind = .address mode none)
      (other : mode ≠ .immediate ∧ mode ≠ .registers) : Alike operand operand'

theorem Operand.Alike.mode?_eq {operand operand' : Operand} (alike : Alike operand operand') :
    operand.mode? = operand'.mode? := by
  cases alike with
  | refl => rfl
  | address kind kind' other => rw [mode?, mode?, kind, kind']

namespace Statement

/-! ### What only the modes decide -/

section

variable {operands operands' : List Operand}
  (modes : operands.map Operand.mode? = operands'.map Operand.mode?)
include modes

theorem map_of_modes {α : Type} {f : Operand → α}
    (same : ∀ operand operand' : Operand, operand.mode? = operand'.mode? → f operand = f operand') :
    operands.map f = operands'.map f := by
  induction operands generalizing operands' with
  | nil =>
    cases operands' with
    | nil => rfl
    | cons => cases modes
  | cons operand operands ih =>
    cases operands' with
    | nil => cases modes
    | cons operand' operands' =>
      obtain ⟨first, rest⟩ := List.cons.inj modes
      rw [List.map_cons, List.map_cons, same _ _ first, ih rest]

theorem keyOf_of_modes (mnemonic : Mnemonic) (size : Option Size) :
    keyOf mnemonic size operands = keyOf mnemonic size operands' := by
  have keys : operands.map (keyMode mnemonic) = operands'.map (keyMode mnemonic) := by
    apply map_of_modes modes
    intro operand operand' same
    unfold keyMode
    rw [same]
  have target (operands : List Operand) :
      operands[1]?.bind Operand.mode? = (operands.map Operand.mode?)[1]?.bind id := by
    rw [List.getElem?_map, Option.bind_map]
    rfl
  rw [keyOf, keyOf, target operands, target operands', modes, keys]

theorem instructionLength_of_modes (mnemonic : Mnemonic) (size : Option Size) :
    instructionLength mnemonic size operands = instructionLength mnemonic size operands' := by
  have words : operands.map (extensionWords mnemonic size ·.mode?) =
      operands'.map (extensionWords mnemonic size ·.mode?) :=
    map_of_modes modes fun operand operand' same => by rw [same]
  have mapped (operands : List Operand) :
      operands.foldr (fun operand words => extensionWords mnemonic size operand.mode? + words) 1 =
        (operands.map (extensionWords mnemonic size ·.mode?)).foldr (· + ·) 1 := by
    rw [List.foldr_map]
  rw [instructionLength, instructionLength, mapped operands, mapped operands', words]

end

/-! ### What the operands decide that count -/

section

variable {operands operands' : List Operand} (alike : List.Forall₂ Operand.Alike operands operands')
include alike

theorem modes_alike : operands.map Operand.mode? = operands'.map Operand.mode? := by
  induction alike with
  | nil => rfl
  | cons first _ ih => rw [List.map_cons, List.map_cons, first.mode?_eq, ih]

theorem registerCount?_alike : registerCount? operands = registerCount? operands' := by
  unfold registerCount?
  induction alike with
  | nil => rfl
  | cons first _ ih =>
    rw [List.findSome?_cons, List.findSome?_cons, ih]
    cases first with
    | refl => rfl
    | @address _ mode kind kind' other =>
      rw [kind, kind']
      cases mode <;> first | rfl | exact absurd rfl other.2

theorem repetitions?_alike (symbols : Bytes → Option Int64) (mnemonic : Mnemonic) :
    repetitions? symbols mnemonic operands = repetitions? symbols mnemonic operands' := by
  have count := registerCount?_alike alike
  unfold repetitions?
  rw [count]
  cases alike with
  | nil => rfl
  | cons first others =>
    cases first with
    | refl => rfl
    | address kind kind' other => simp [Operand.mode?, kind, kind', other.1]

end

section

variable {statement statement' : Statement} (opcode : statement.opcode = statement'.opcode)
  (alike : List.Forall₂ Operand.Alike statement.operands statement'.operands)
  (symbols : Bytes → Option Int64)
include opcode alike

theorem times?_alike : statement.times? symbols = statement'.times? symbols := by
  unfold times?
  rw [opcode]
  split
  · rename_i mnemonic start size _
    rw [keyOf_of_modes (modes_alike alike)]
    congr 1
    funext entry
    unfold timesOf
    rw [repetitions?_alike alike]
  · rfl

theorem length_alike (instruction : statement.kind = .instruction) :
    statement.length symbols = statement'.length symbols := by
  unfold length
  rw [← opcode]
  split
  · rw [instructionLength_of_modes (modes_alike alike)]
  · rename_i spelled
    simp [kind, spelled] at instruction
  · rfl

end

end Statement

end Asm68k
