import Asm68k.Proofs.Timing.Range

/-!
How times are calculated. A row of the table that has a time for each unit has one outcome, and is for
shifts, multiplications or moves of registers; of these the number of units is always known, exactly or
as a range. Other rows have one outcome, or one for each name that the mnemonic has for them. So no
result lacks a part that it needs: `times?_wellFormed`.
-/

namespace Asm68k

/-- The times that follow from the parts of a calculation. Repetitions are known exactly where there
is a time for each unit, and a range of them is for a single outcome. -/
inductive Calculation.Yields : Calculation → List Timing → Prop where
  | fixed {base : List Timing} {address : Option Timing} :
    Yields ⟨base, address, none, none⟩ (base.map (· + address.getD .zero))
  | exactly {base : List Timing} {address : Option Timing} {unit : Timing} {n : Int64} :
    Yields ⟨base, address, some unit, some (.exactly n)⟩
      (base.map (· + unit.scale n + address.getD .zero))
  | between {base : Timing} {address : Option Timing} {unit : Timing} {low high : Int64} :
    Yields ⟨[base], address, some unit, some (.between low high)⟩
      [base + unit.scale low + address.getD .zero, base + unit.scale high + address.getD .zero]

structure Times.WellFormed (times : Times) (calculation : Calculation) : Prop where
  filled : times.values ≠ []
  yields : calculation.Yields times.values
  /-- A single outcome has no name. -/
  labelled : times.labels.length = if times.values.length = 1 then 0 else times.values.length

/-! ### Rows with a time for each unit -/

namespace Timing

/-- Mnemonics that repeat a unit. For moves of registers the row has to name the list. -/
def Row.Counts (row : Row) (mnemonic : Mnemonic) : Prop :=
  (mnemonic.isShift || mnemonic.isMultiplication) = true ∨
    mnemonic = .movem ∧ row.operands.any (·.modes == [.registers]) = true

instance (row : Row) (mnemonic : Mnemonic) : Decidable (row.Counts mnemonic) :=
  inferInstanceAs (Decidable (_ ∨ _))

theorem Row.outcomes_checked : ∀ row ∈ rows, ∀ mnemonic ∈ row.mnemonics,
    row.perUnit = none ∧
        (row.base.length = 1 ∨ row.base.length = mnemonic.outcomes.length) ∨
      row.base.length = 1 ∧ row.Counts mnemonic := by
  decide +kernel

theorem withAddress_eq (address : Option Timing) (t : Timing) :
    withAddress address t = t + address.getD zero := by
  cases address with
  | some extra => rfl
  | none =>
    show t = ⟨t.clock + 0, t.read + 0, t.write + 0⟩
    simp only [Int64.add_zero]

end Timing

open Timing

theorem Calculation.yields_fixed (base : List Timing) (address : Option Timing) :
    Yields ⟨base, address, none, none⟩ (values ⟨base, address, none, none⟩) := by
  rw [values_eq, funext (withAddress_eq address)]
  exact .fixed

theorem Calculation.yields_repeated (base : Timing) (address : Option Timing) (unit : Timing)
    (repetitions : Repetitions) :
    Yields ⟨[base], address, some unit, some repetitions⟩
      (values ⟨[base], address, some unit, some repetitions⟩) := by
  rw [values_eq, funext (withAddress_eq address)]
  cases repetitions with
  | exactly n => exact .exactly
  | between low high => exact .between

namespace Statement

/-! ### Numbers of units -/

theorem exists_registerCount {operands : List Operand}
    (listed : some .registers ∈ operands.map (keyMode .movem)) :
    ∃ n, registerCount? operands = some n := by
  obtain ⟨operand, member, mode⟩ := List.mem_map.mp listed
  rw [← Option.ne_none_iff_exists', registerCount?, ne_eq, List.findSome?_eq_none_iff]
  intro missing
  have missing := missing operand member
  obtain ⟨text, start, kind⟩ := operand
  cases kind with
  | address found value =>
    cases found with
    | registers | dn | an => cases missing
    | _ => cases mode
  | _ => cases mode

theorem exists_repetitions {row : Row} {mnemonic : Mnemonic} {size : Option Size}
    {operands : List Operand} (listed : row.Lists mnemonic size (operands.map (keyMode mnemonic)))
    (counts : row.Counts mnemonic) (symbols : Bytes → Option Int64) :
    ∃ repetitions, repetitions? symbols mnemonic operands = some repetitions := by
  rcases counts with repeats | ⟨rfl, named⟩
  · cases mnemonic
    case shift kind direction =>
      simp only [repetitions?]
      split
      · split <;> exact ⟨_, rfl⟩
      · exact ⟨_, rfl⟩
    case mulu | muls =>
      simp only [repetitions?]
      split <;> exact ⟨_, rfl⟩
    all_goals cases repeats
  · obtain ⟨slot, member, only⟩ := List.any_eq_true.mp named
    obtain ⟨found, member', allowed⟩ := listed.exists_mode member
    obtain ⟨mode, inside, rfl⟩ := Slot.allows_iff.mp allowed
    rw [beq_iff_eq.mp only, List.mem_singleton] at inside
    subst inside
    obtain ⟨n, counted⟩ := exists_registerCount member'
    exact ⟨.exactly n, by rw [repetitions?, counted]; rfl⟩

/-! ### Results -/

theorem length_outcomes_of_counts {row : Row} {mnemonic : Mnemonic} (counts : row.Counts mnemonic) :
    mnemonic.outcomes.length = 2 := by
  rcases counts with repeats | ⟨rfl, -⟩
  · cases mnemonic <;> first | rfl | cases repeats
  · rfl

/-- The parts of the times that `timesOf` finds. -/
def calculationOf (symbols : Bytes → Option Int64) (mnemonic : Mnemonic) (operands : List Operand)
    (entry : Entry) : Calculation where
  base := entry.base
  address := entry.address
  perUnit := entry.perUnit
  repetitions := entry.perUnit.bind fun _ => repetitions? symbols mnemonic operands

theorem timesOf_eq (symbols : Bytes → Option Int64) (mnemonic : Mnemonic) (operands : List Operand)
    (entry : Entry) :
    timesOf symbols mnemonic operands entry =
      let calculation := calculationOf symbols mnemonic operands entry
      ⟨calculation.values,
        if 1 < calculation.values.length then mnemonic.outcomes.map Bytes.ofString else [],
        some calculation⟩ :=
  rfl

theorem yields_calculationOf {mnemonic : Mnemonic} {size : Option Size} {operands : List Operand}
    {entry : Entry} (found : lookup? (key mnemonic size (operands.map (keyMode mnemonic))) = some entry)
    (symbols : Bytes → Option Int64) :
    let calculation := calculationOf symbols mnemonic operands entry
    calculation.Yields calculation.values ∧
      (calculation.values.length = 1 ∨ calculation.values.length = mnemonic.outcomes.length) := by
  obtain ⟨row, member, listed, gives⟩ := exists_row_of_lookup?_key found
  have checked := Row.outcomes_checked row member mnemonic listed.named
  rw [← gives.perUnit, ← gives.base] at checked
  obtain ⟨base, address, perUnit⟩ := entry
  simp only [calculationOf]
  rcases checked with ⟨rfl, outcomes⟩ | ⟨single, counts⟩
  · refine ⟨Calculation.yields_fixed base address, ?_⟩
    rw [Calculation.values_eq, List.length_map]
    exact outcomes
  obtain ⟨base, rfl⟩ := List.length_eq_one_iff.mp single
  cases perUnit with
  | none =>
    refine ⟨Calculation.yields_fixed [base] address, .inl ?_⟩
    rw [Calculation.values_eq, List.length_map]
    rfl
  | some unit =>
    obtain ⟨repetitions, counted⟩ := exists_repetitions listed counts symbols
    rw [Option.bind_some, counted]
    refine ⟨Calculation.yields_repeated base address unit repetitions, ?_⟩
    rw [Calculation.values_eq, List.length_map]
    cases repetitions with
    | exactly n => exact .inl rfl
    | between low high => exact .inr (length_outcomes_of_counts counts).symm

/-- Every result has the parts that it needs: they are those of its form in the table, with a number
of units exactly where these have a time for each. -/
theorem times?_wellFormed {symbols : Bytes → Option Int64} {statement : Statement} {times : Times}
    (timed : statement.times? symbols = some times) :
    ∃ key entry calculation, statement.key? = some key ∧ lookup? key = some entry ∧
      times.calculation = some calculation ∧ calculation.base = entry.base ∧
      calculation.address = entry.address ∧ calculation.perUnit = entry.perUnit ∧
      times.WellFormed calculation := by
  have filled := values_ne_nil timed
  unfold times? at timed
  split at timed
  · rename_i mnemonic start size opcode
    obtain ⟨entry, found, rfl⟩ := Option.map_eq_some_iff.mp timed
    rw [timesOf_eq] at filled ⊢
    obtain ⟨yields, outcomes⟩ := yields_calculationOf found symbols
    have positive := List.length_pos_iff.mpr filled
    refine ⟨_, entry, _, by rw [key?, opcode], found, rfl, rfl, rfl, rfl, filled, yields, ?_⟩
    dsimp only at positive ⊢
    split
    · rw [List.length_map, if_neg (by omega)]
      omega
    · rw [List.length_nil, if_pos (by omega)]
  · cases timed

/-- One register in the place of a list. -/
def pushedRegister : Statement where
  text := Bytes.ofString " movem.l d3,-(sp)"
  label := none
  opcode := some ⟨.instruction .movem, 1, some .long⟩
  operands := [⟨Bytes.ofString "d3", 9, .address .dn none⟩,
    ⟨Bytes.ofString "-(sp)", 12, .address .preDecrement none⟩]
  comment := []

/-- A single register counts as a list of one. -/
theorem times?_wellFormed_pushedRegister :
    ofLine pushedRegister.text = pushedRegister ∧
      ∃ times calculation, pushedRegister.times? (fun _ => none) = some times ∧
        times.values = [⟨16, 2, 2⟩] ∧ times.calculation = some calculation ∧
        calculation.repetitions = some (.exactly 1) ∧ times.WellFormed calculation := by
  have found : lookup? (keyOf .movem (some .long) pushedRegister.operands) =
      some ⟨[⟨8, 2, 0⟩], none, some ⟨8, 0, 2⟩⟩ := by
    rw [lookup?_eq]
    decide +kernel
  have timed := times?_of_lookup? rfl found fun _ => none
  obtain ⟨_, _, calculation, -, -, calculated, -, -, -, wellFormed⟩ := times?_wellFormed timed
  obtain rfl := Option.some.inj calculated
  exact ⟨by decide +kernel, _, _, timed, by decide +kernel, calculated, rfl, wellFormed⟩

end Statement

end Asm68k
