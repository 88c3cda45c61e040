import Asm68k.Proofs.Listing.Times
import Asm68k.Proofs.Timing.Forms

/-!
Ranges of times. Of an instruction whose immediate source has no value yet, the times for the least
and the greatest number of units are known. Multiplications count bits of a word, so that the number
is always in the range. Shifts take the source itself as the number, which is not checked.
-/

namespace Asm68k

/-! ### Bits -/

theorem popCount_le {x : UInt32} (small : x.toNat < 2 ^ 16) : popCount x ≤ 16 := by
  unfold popCount
  rw [show List.range 32 = List.range 16 ++ (List.range 16).map (16 + ·) from rfl,
    List.countP_append]
  have low : (List.range 16).countP (fun i => x.toNat.testBit i) ≤ 16 := List.countP_le_length
  have high : ((List.range 16).map (16 + ·)).countP (fun i => x.toNat.testBit i) = 0 := by
    rw [List.countP_eq_zero]
    intro i member
    obtain ⟨k, -, rfl⟩ := List.mem_map.mp member
    have wide : x.toNat < 2 ^ (16 + k) :=
      Nat.lt_of_lt_of_le small (Nat.pow_le_pow_right (by decide) (Nat.le_add_right _ _))
    rw [Nat.testBit_lt_two_pow wide]
    exact Bool.false_ne_true
  omega

theorem popCount_word_le (n : UInt32) : popCount (n &&& 0xFFFF) ≤ 16 := by
  apply popCount_le
  rw [UInt32.toNat_and]
  exact Nat.lt_of_le_of_lt Nat.and_le_right (by decide)

theorem bitChanges_le (n : Int64) : bitChanges n ≤ 16 := by
  apply popCount_le
  have word : ((n ^^^ (n <<< 1)) &&& 0xFFFF).toUInt64.toNat < 2 ^ 16 := by
    have masked : ((n ^^^ (n <<< 1)) &&& 0xFFFF).toUInt64 = (n ^^^ (n <<< 1)).toUInt64 &&& 0xFFFF := rfl
    rw [masked, UInt64.toNat_and]
    exact Nat.lt_of_le_of_lt Nat.and_le_right (by decide)
  rw [UInt64.toNat_toUInt32]
  exact Nat.lt_of_le_of_lt (Nat.mod_le _ _) word

/-! ### Forms with an immediate operand -/

/-- Multiplications, whose time depends on the bits of the source. -/
def Mnemonic.isMultiplication : Mnemonic → Bool
  | .mulu | .muls => true
  | _ => false

namespace Timing

/-- With an immediate operand only shifts and multiplications repeat a unit, and these shifts always
do. -/
theorem perUnit_of_immediate {mnemonic : Mnemonic} {size : Option Size} {modes : List (Option Mode)}
    {entry : Entry} (found : lookup? (key mnemonic size modes) = some entry)
    (immediate : some .immediate ∈ modes) :
    (entry.perUnit = none ∧ mnemonic.isShift = false) ∨
      entry.perUnit = some ⟨2, 0, 0⟩ ∧ (∃ base, entry.base = [base]) ∧
        (mnemonic.isShift || mnemonic.isMultiplication) = true := by
  have checked : ∀ row ∈ rows, (row.operands.any (·.modes.contains .immediate)) = true →
      (row.perUnit = none ∧ ∀ mnemonic ∈ row.mnemonics, mnemonic.isShift = false) ∨
        row.perUnit = some ⟨2, 0, 0⟩ ∧ row.base.length = 1 ∧
          ∀ mnemonic ∈ row.mnemonics,
            (mnemonic.isShift || mnemonic.isMultiplication) = true := by
    decide +kernel
  obtain ⟨row, member, listed, gives⟩ := exists_row_of_lookup?_key found
  obtain ⟨slot, placed, inside⟩ := listed.exists_slot immediate
  have slots : row.operands.any (·.modes.contains .immediate) = true :=
    List.any_eq_true.mpr ⟨slot, placed, List.contains_iff_mem.mpr inside⟩
  rw [gives.perUnit, gives.base]
  rcases checked row member slots with ⟨none, others⟩ | ⟨unit, single, others⟩
  · exact .inl ⟨none, others mnemonic listed.named⟩
  · exact .inr ⟨unit, List.length_eq_one_iff.mp single, others mnemonic listed.named⟩

/-! ### Small times -/

/-- No component is negative, or so large that a sum of a few overflows. -/
def Small (t : Timing) : Prop := ∀ c, 0 ≤ t.count c ∧ t.count c ≤ 200

instance : DecidablePred Small := fun t =>
  decidable_of_iff ((0 ≤ t.count .clock ∧ t.count .clock ≤ 200) ∧
      (0 ≤ t.count .read ∧ t.count .read ≤ 200) ∧ 0 ≤ t.count .write ∧ t.count .write ≤ 200)
    ⟨fun h c => match c with
      | .clock => h.1
      | .read => h.2.1
      | .write => h.2.2,
    fun h => ⟨h .clock, h .read, h .write⟩⟩

theorem small_addressTime (long : Bool) (mode : Mode) : Small (addressTime long mode) := by
  cases long <;> cases mode <;> decide

theorem small_sourceTime (mnemonic : Mnemonic) (long : Bool) (mode : Mode) :
    Small (sourceTime mnemonic long mode) := by
  unfold sourceTime
  split
  case h_6 => exact small_addressTime long mode
  all_goals decide

theorem small_of_lookup? {key : Bytes} {entry : Entry} (found : lookup? key = some entry) :
    (∀ t ∈ entry.base, Small t) ∧ ∀ t ∈ entry.address, Small t := by
  have checked : ∀ row ∈ rows, ∀ t ∈ row.base, Small t := by decide +kernel
  obtain ⟨row, listed, mnemonic, -, size, -, modes, -, -, rfl⟩ := exists_row_of_lookup? found
  refine ⟨checked row listed, ?_⟩
  intro t address
  unfold Row.entry Row.address? at address
  dsimp only at address
  split at address
  · exact Option.mem_some.mp address ▸ small_sourceTime _ _ _
  · exact Option.mem_some.mp address ▸ small_addressTime _ _
  · cases address

/-! ### Repeated units -/

/-- The time with what comes on top for the address. -/
def withAddress (address : Option Timing) (t : Timing) : Timing := address.elim t (t + ·)

/-- Two clock periods for each unit, on top of a small time. -/
theorem exists_counts {base : Timing} {address : Option Timing} (small : Small base)
    (small' : ∀ t ∈ address, Small t) :
    ∃ fixed : Component → Int, (∀ c, 0 ≤ fixed c ∧ fixed c ≤ 400) ∧
      ∀ n, (withAddress address (base + scale n ⟨2, 0, 0⟩)).count .clock =
          (fixed .clock + 2 * n.toInt).bmod (2 ^ 64) ∧
        (withAddress address (base + scale n ⟨2, 0, 0⟩)).count .read = fixed .read ∧
        (withAddress address (base + scale n ⟨2, 0, 0⟩)).count .write = fixed .write := by
  have clock (n : Int64) : (base + scale n ⟨2, 0, 0⟩).count .clock =
      (base.count .clock + 2 * n.toInt).bmod (2 ^ 64) := by
    show (base.clock + 2 * n).toInt = _
    rw [Int64.toInt_add, Int64.toInt_mul, Int.add_bmod_bmod]
    rfl
  have read (n : Int64) : (base + scale n ⟨2, 0, 0⟩).count .read = base.count .read := by
    show (base.read + 0 * n).toInt = base.read.toInt
    rw [Int64.zero_mul, Int64.add_zero]
  have write (n : Int64) : (base + scale n ⟨2, 0, 0⟩).count .write = base.count .write := by
    show (base.write + 0 * n).toInt = base.write.toInt
    rw [Int64.zero_mul, Int64.add_zero]
  cases address with
  | none =>
    refine ⟨base.count, fun c => ?_, fun n => ⟨clock n, read n, write n⟩⟩
    have := small c
    omega
  | some extra =>
    have bounds (c : Component) : 0 ≤ base.count c + extra.count c ∧
        base.count c + extra.count c ≤ 400 := by
      have := small c
      have := small' extra rfl c
      omega
    refine ⟨fun c => base.count c + extra.count c, bounds, fun n => ⟨?_, ?_, ?_⟩⟩
    · show ((base + scale n ⟨2, 0, 0⟩).clock + extra.clock).toInt = _
      rw [Int64.toInt_add]
      show ((base + scale n ⟨2, 0, 0⟩).count .clock + extra.count .clock).bmod (2 ^ 64) = _
      rw [clock, Int.bmod_add_bmod, Int.add_right_comm]
    · show (base + scale n ⟨2, 0, 0⟩ + extra).count .read = _
      have := bounds .read
      rw [count_add (by rw [read]; omega) (by rw [read]; omega), read]
    · show (base + scale n ⟨2, 0, 0⟩ + extra).count .write = _
      have := bounds .write
      rw [count_add (by rw [write]; omega) (by rw [write]; omega), write]

/-! ### Between two times -/

/-- Each component lies between those of two other times, and none is negative. -/
def Between (low high t : Timing) : Prop :=
  ∀ c, 0 ≤ low.count c ∧ low.count c ≤ t.count c ∧ t.count c ≤ high.count c

theorem bmod_between_iff {fixed least greatest n : Int} (low : 0 ≤ fixed) (high : fixed ≤ 400)
    (nonneg : 0 ≤ least) (fits : greatest ≤ 100) :
    fixed + 2 * least ≤ (fixed + 2 * n).bmod (2 ^ 64) ∧
        (fixed + 2 * n).bmod (2 ^ 64) ≤ fixed + 2 * greatest ↔
      least ≤ n % 2 ^ 63 ∧ n % 2 ^ 63 ≤ greatest := by
  rw [Int.bmod_def]
  split <;> omega

/-- A count of units is in a range of counts if the times are, where counts that differ by half the
words of 64 bits are the same. -/
theorem between_iff {base : Timing} {address : Option Timing} (small : Small base)
    (small' : ∀ t ∈ address, Small t) {least greatest : Int64} (nonneg : 0 ≤ least.toInt)
    (ordered : least.toInt ≤ greatest.toInt) (fits : greatest.toInt ≤ 100) (n : Int64) :
    let total := fun n => withAddress address (base + scale n ⟨2, 0, 0⟩)
    Between ((total least).inf (total greatest)) ((total least).sup (total greatest)) (total n) ↔
      least.toInt ≤ n.toInt % 2 ^ 63 ∧ n.toInt % 2 ^ 63 ≤ greatest.toInt := by
  intro total
  obtain ⟨fixed, bounds, counts⟩ := exists_counts small small'
  have fixedClock := bounds .clock
  have short {k : Int64} (low : 0 ≤ k.toInt) (high : k.toInt ≤ 100) :
      (total k).count .clock = fixed .clock + 2 * k.toInt := by
    rw [(counts k).1]
    exact Int.bmod_eq_of_le (by omega) (by omega)
  have clockLeast := short nonneg (by omega)
  have clockGreatest := short (by omega) fits
  have clock : (total n).count .clock = (fixed .clock + 2 * n.toInt).bmod (2 ^ 64) := (counts n).1
  have within : fixed .clock + 2 * least.toInt ≤ (total n).count .clock ∧
      (total n).count .clock ≤ fixed .clock + 2 * greatest.toInt ↔
      least.toInt ≤ n.toInt % 2 ^ 63 ∧ n.toInt % 2 ^ 63 ≤ greatest.toInt := by
    rw [clock]
    exact bmod_between_iff fixedClock.1 fixedClock.2 nonneg fits
  rw [← within]
  constructor
  · intro h
    obtain ⟨-, low, high⟩ := h .clock
    rw [count_inf, clockLeast, clockGreatest] at low
    rw [count_sup, clockLeast, clockGreatest] at high
    omega
  · rintro ⟨low, high⟩ c
    rw [count_inf, count_sup]
    cases c with
    | clock => omega
    | read =>
      have := bounds .read
      rw [(counts least).2.1, (counts greatest).2.1, (counts n).2.1]
      omega
    | write =>
      have := bounds .write
      rw [(counts least).2.2, (counts greatest).2.2, (counts n).2.2]
      omega

theorem nonneg_withAddress {address : Option Timing} (small : ∀ t ∈ address, Small t) {t : Timing}
    (small' : Small t) (c : Component) : 0 ≤ (withAddress address t).count c := by
  have here := small' c
  cases address with
  | none => exact here.1
  | some extra =>
    have top := small extra rfl c
    show 0 ≤ (t + extra).count c
    rw [count_add (by omega) (by omega)]
    omega

end Timing

open Timing

theorem Times.between_of_mem {times : Times} (nonneg : ∀ t ∈ times.values, ∀ c, 0 ≤ t.count c)
    (filled : times.values ≠ []) :
    ∃ low high, times.least? = some low ∧ times.greatest? = some high ∧
      ∀ t ∈ times.values, Between low high t := by
  obtain ⟨low, high, least, greatest, bounds⟩ := Line.exists_bounds filled
  refine ⟨low, high, least, greatest, fun t member c => ?_⟩
  have lowest : low.count c = Extreme.least.among (times.values.map (·.count c)) :=
    bounds .least c
  have highest : high.count c = Extreme.greatest.among (times.values.map (·.count c)) :=
    bounds .greatest c
  have counted : times.values.map (·.count c) ≠ [] := by simpa using filled
  obtain ⟨t', member', same⟩ := List.mem_map.mp (Extreme.least.among_mem counted)
  rw [lowest, highest]
  exact ⟨same ▸ nonneg t' member' c, Extreme.among_bounds (List.mem_map_of_mem member)⟩

/-! ### Values of times -/

theorem Calculation.values_eq (c : Calculation) : c.values = c.repeated.map (withAddress c.address) := by
  unfold values
  cases c.address with
  | none => exact (List.map_id _).symm
  | some address => rfl

namespace Mnemonic

/-- The least and the greatest number of units, where the source is not known. -/
def unitRange : Mnemonic → Int64 × Int64
  | .shift _ _ => (1, 8)
  | _ => (0, 16)

theorem unitRange_bounds (mnemonic : Mnemonic) :
    0 ≤ mnemonic.unitRange.1.toInt ∧ mnemonic.unitRange.1.toInt ≤ mnemonic.unitRange.2.toInt ∧
      mnemonic.unitRange.2.toInt ≤ 100 := by
  unfold unitRange
  split <;> decide

/-- The number of units for an immediate source. -/
def units : Mnemonic → Int64 → Int64
  | .mulu, n => Int64.ofNat (popCount (n.toUInt64.toUInt32 &&& 0xFFFF))
  | .muls, n => Int64.ofNat (bitChanges n)
  | _, n => n

theorem units_between_iff {mnemonic : Mnemonic}
    (repeats : (mnemonic.isShift || mnemonic.isMultiplication) = true) (n : Int64) :
    mnemonic.unitRange.1.toInt ≤ (mnemonic.units n).toInt % 2 ^ 63 ∧
        (mnemonic.units n).toInt % 2 ^ 63 ≤ mnemonic.unitRange.2.toInt ↔
      (mnemonic.isShift = true → 1 ≤ n.toInt % 2 ^ 63 ∧ n.toInt % 2 ^ 63 ≤ 8) := by
  have counted {k : Nat} (few : k ≤ 16) :
      (0 : Int64).toInt ≤ (Int64.ofNat k).toInt % 2 ^ 63 ∧
        (Int64.ofNat k).toInt % 2 ^ 63 ≤ (16 : Int64).toInt := by
    rw [Int64.toInt_ofNat_of_lt (by omega)]
    have zero : (0 : Int64).toInt = 0 := rfl
    have sixteen : (16 : Int64).toInt = 16 := rfl
    omega
  cases mnemonic
  case shift kind direction => simp [isShift, unitRange, units]
  case mulu => exact iff_of_true (counted (popCount_word_le _)) (by simp [isShift])
  case muls => exact iff_of_true (counted (bitChanges_le n)) (by simp [isShift])
  all_goals cases repeats

end Mnemonic

namespace Statement

theorem repetitions?_of_immediate {symbols : Bytes → Option Int64} {mnemonic : Mnemonic}
    {operands : List Operand} {source : Operand} (first : operands.head? = some source)
    (immediate : source.mode? = some .immediate)
    (repeats : (mnemonic.isShift || mnemonic.isMultiplication) = true) :
    repetitions? symbols mnemonic operands =
      match Expression.value? symbols source.text with
      | none => some (.between mnemonic.unitRange.1 mnemonic.unitRange.2)
      | some n => some (.exactly (mnemonic.units n)) := by
  have marked : (source.mode? == some .immediate) = true := beq_iff_eq.mpr immediate
  unfold repetitions?
  simp only [first, Option.bind_some, marked, if_true]
  cases Expression.value? symbols source.text <;> cases mnemonic <;> first | rfl | cases repeats

section

variable {symbols : Bytes → Option Int64} {mnemonic : Mnemonic} {operands : List Operand}
  {entry : Entry}

theorem values_of_perUnit_none (fixed : entry.perUnit = none) :
    (timesOf symbols mnemonic operands entry).values =
      entry.base.map (withAddress entry.address) := by
  simp only [timesOf, Calculation.values_eq, Calculation.repeated, fixed]

theorem values_of_perUnit {base : Timing} (unit : entry.perUnit = some ⟨2, 0, 0⟩)
    (single : entry.base = [base]) {repetitions : Repetitions}
    (repeated : repetitions? symbols mnemonic operands = some repetitions) :
    (timesOf symbols mnemonic operands entry).values =
      match repetitions with
      | .exactly n => [withAddress entry.address (base + scale n ⟨2, 0, 0⟩)]
      | .between low high => [withAddress entry.address (base + scale low ⟨2, 0, 0⟩),
          withAddress entry.address (base + scale high ⟨2, 0, 0⟩)] := by
  cases repetitions <;>
    simp [timesOf, Calculation.values_eq, Calculation.repeated, unit, single, repeated]

theorem between_of_perUnit_none (symbols' : Bytes → Option Int64) (fixed : entry.perUnit = none)
    (small : ∀ t ∈ entry.base, Small t) (small' : ∀ t ∈ entry.address, Small t)
    (filled : entry.base ≠ []) :
    ∃ low high, (timesOf symbols mnemonic operands entry).least? = some low ∧
      (timesOf symbols mnemonic operands entry).greatest? = some high ∧
      ∀ t ∈ (timesOf symbols' mnemonic operands entry).values, Between low high t := by
  have values := @values_of_perUnit_none symbols mnemonic operands entry fixed
  have nonneg : ∀ t ∈ (timesOf symbols mnemonic operands entry).values, ∀ c, 0 ≤ t.count c := by
    rw [values]
    intro t member
    obtain ⟨t, inside, rfl⟩ := List.mem_map.mp member
    exact nonneg_withAddress small' (small t inside)
  obtain ⟨low, high, least, greatest, between⟩ :=
    Times.between_of_mem nonneg (by rw [values]; simpa using filled)
  refine ⟨low, high, least, greatest, ?_⟩
  rwa [values_of_perUnit_none fixed, ← values]

theorem between_of_perUnit {symbols' : Bytes → Option Int64} {source : Operand} {base : Timing}
    {n : Int64} (first : operands.head? = some source) (immediate : source.mode? = some .immediate)
    (unknown : Expression.value? symbols source.text = none)
    (known : Expression.value? symbols' source.text = some n)
    (unit : entry.perUnit = some ⟨2, 0, 0⟩) (single : entry.base = [base]) (small : Small base)
    (small' : ∀ t ∈ entry.address, Small t)
    (repeats : (mnemonic.isShift || mnemonic.isMultiplication) = true) :
    ∃ low high, (timesOf symbols mnemonic operands entry).least? = some low ∧
      (timesOf symbols mnemonic operands entry).greatest? = some high ∧
      ((∀ t ∈ (timesOf symbols' mnemonic operands entry).values, Between low high t) ↔
        (mnemonic.isShift = true → 1 ≤ n.toInt % 2 ^ 63 ∧ n.toInt % 2 ^ 63 ≤ 8)) := by
  have range := @repetitions?_of_immediate symbols _ _ _ first immediate repeats
  rw [unknown] at range
  have counted := @repetitions?_of_immediate symbols' _ _ _ first immediate repeats
  rw [known] at counted
  have values := values_of_perUnit unit single range
  have values' := values_of_perUnit unit single counted
  obtain ⟨nonneg, ordered, fits⟩ := mnemonic.unitRange_bounds
  refine ⟨_, _, by rw [Times.least?, values], by rw [Times.greatest?, values], ?_⟩
  rw [values', List.forall_mem_singleton, ← Mnemonic.units_between_iff repeats n]
  exact between_iff small small' nonneg ordered fits _

theorem keyMode_immediate {source : Operand} (immediate : source.mode? = some .immediate) :
    keyMode mnemonic source = some .immediate := by
  unfold keyMode
  rw [immediate]
  cases mnemonic <;> rfl

end

/-- The times of an instruction whose immediate source has a value lie between the bounds that are
found without the value. Of shifts it has to be a possible count: one to eight, where counts that
differ by 2⁶³ are the same. -/
theorem times?_between {statement : Statement} {source : Operand}
    {symbols symbols' : Bytes → Option Int64} {times : Times} {n : Int64}
    (first : statement.operands.head? = some source) (immediate : source.mode? = some .immediate)
    (timed : statement.times? symbols = some times)
    (unknown : Expression.value? symbols source.text = none)
    (known : Expression.value? symbols' source.text = some n) :
    ∃ times' low high, statement.times? symbols' = some times' ∧
      times.least? = some low ∧ times.greatest? = some high ∧
      ((∀ t ∈ times'.values, Between low high t) ↔
        ∀ mnemonic ∈ statement.mnemonic?, mnemonic.isShift = true →
          1 ≤ n.toInt % 2 ^ 63 ∧ n.toInt % 2 ^ 63 ≤ 8) := by
  unfold times? at timed
  split at timed
  · rename_i mnemonic start size opcode
    obtain ⟨entry, found, rfl⟩ := Option.map_eq_some_iff.mp timed
    have timed' : statement.times? symbols' =
        some (timesOf symbols' mnemonic statement.operands entry) := by
      rw [times?, opcode]
      exact congrArg (Option.map _) found
    have named : statement.mnemonic? = some mnemonic := by rw [mnemonic?, opcode]
    have marked : some .immediate ∈ statement.operands.map (keyMode mnemonic) :=
      keyMode_immediate immediate ▸ List.mem_map_of_mem (List.mem_of_head? first)
    obtain ⟨small, small'⟩ := small_of_lookup? found
    refine ⟨timesOf symbols' mnemonic statement.operands entry, ?_⟩
    simp only [timed', named, Option.mem_some, forall_eq', true_and]
    rcases perUnit_of_immediate found marked with ⟨fixed, other⟩ | ⟨unit, ⟨base, single⟩, repeats⟩
    · obtain ⟨low, high, least, greatest, between⟩ :=
        between_of_perUnit_none symbols' fixed small small' (base_ne_nil found)
      exact ⟨low, high, least, greatest, iff_of_true between (by simp [other])⟩
    · exact between_of_perUnit first immediate unknown known unit single
        (small base (by simp [single])) small' repeats
  · cases timed

/-- A shift by a count that is a symbol. -/
def symbolicShift : Statement where
  text := Bytes.ofString " lsl.l #n,d0"
  label := none
  opcode := some ⟨.instruction (.shift .logical .left), 1, some .long⟩
  operands := [⟨Bytes.ofString "#n", 7, .address .immediate none⟩,
    ⟨Bytes.ofString "d0", 10, .address .dn none⟩]
  comment := []

theorem times?_symbolicShift (symbols : Bytes → Option Int64) :
    symbolicShift.times? symbols =
      some (timesOf symbols (.shift .logical .left) symbolicShift.operands
        ⟨[⟨8, 1, 0⟩], none, some ⟨2, 0, 0⟩⟩) := by
  have found : lookup? (keyOf (.shift .logical .left) (some .long) symbolicShift.operands) =
      some ⟨[⟨8, 1, 0⟩], none, some ⟨2, 0, 0⟩⟩ := by
    rw [lookup?_eq]
    decide +kernel
  exact times?_of_lookup? rfl found symbols

/-- Eight shifts are the most that a range allows. -/
theorem times?_between_eightShifts :
    let source : Operand := ⟨Bytes.ofString "#n", 7, .address .immediate none⟩
    symbolicShift.operands.head? = some source ∧ source.mode? = some .immediate ∧
      Expression.value? (fun _ => none) source.text = none ∧
      Expression.value? (fun _ => some 8) source.text = some 8 ∧
      ∃ times times' low high, symbolicShift.times? (fun _ => none) = some times ∧
        symbolicShift.times? (fun _ => some 8) = some times' ∧ times.least? = some low ∧
        times.greatest? = some high ∧ ∀ t ∈ times'.values, Between low high t := by
  intro source
  have unknown : Expression.value? (fun _ => none) source.text = none := by decide +kernel
  have known : Expression.value? (fun _ => some 8) source.text = some 8 := by decide +kernel
  obtain ⟨times', low, high, timed', least, greatest, between⟩ :=
    @times?_between symbolicShift source _ _ _ _ rfl rfl (times?_symbolicShift _) unknown known
  exact ⟨rfl, rfl, unknown, known, _, times', low, high, times?_symbolicShift _, timed', least,
    greatest, between.mpr fun _ _ _ => by decide⟩

/-- Twenty shifts take longer than the range says that is found without the count. -/
theorem times?_twentyShifts :
    let source : Operand := ⟨Bytes.ofString "#n", 7, .address .immediate none⟩
    ofLine (Bytes.ofString " lsl.l #n,d0") = symbolicShift ∧
      symbolicShift.operands.head? = some source ∧ source.mode? = some .immediate ∧
      Expression.value? (fun _ => none) source.text = none ∧
      Expression.value? (fun _ => some 20) source.text = some 20 ∧
      ∃ times times', symbolicShift.times? (fun _ => none) = some times ∧
        symbolicShift.times? (fun _ => some 20) = some times' ∧
        times.least? = some ⟨10, 1, 0⟩ ∧ times.greatest? = some ⟨24, 1, 0⟩ ∧
        times'.values = [⟨48, 1, 0⟩] := by
  intro source
  refine ⟨by decide +kernel, rfl, rfl, by decide +kernel, by decide +kernel, _, _,
    times?_symbolicShift _, times?_symbolicShift _, ?_, ?_, ?_⟩
  all_goals decide +kernel

end Statement

end Asm68k
