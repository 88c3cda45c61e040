import Asm68k.Decimal
import Asm68k.Proofs.Bytes

/-!
Numbers as they are written. The front of a number is a number too, and a digit behind a number
makes it ten times as large, and more. A written integer is read back exactly if it is in the signed
64-bit range: `readInt64_ofInt`.
-/

namespace Asm68k.Decimal

/-- The value of a decimal digit. -/
def digit (b : UInt8) : Nat := b.toNat - '0'.toNat

theorem toUInt8_digitChar : ∀ d < 10, (Nat.digitChar d).toUInt8 = UInt8.ofNat ('0'.toNat + d) := by
  decide

theorem digit_ofNat : ∀ d < 10, digit (UInt8.ofNat ('0'.toNat + d)) = d := by
  decide

theorem isDigit_ofNat : ∀ d < 10, Bytes.isDigit (UInt8.ofNat ('0'.toNat + d)) = true := by
  decide

theorem ofNat_of_isDigit {b : UInt8} (decimal : Bytes.isDigit b = true) :
    digit b < 10 ∧ UInt8.ofNat ('0'.toNat + digit b) = b := by
  have checked := Bytes.forall_byte (p := fun b => !Bytes.isDigit b ||
    decide (digit b < 10 ∧ UInt8.ofNat ('0'.toNat + digit b) = b)) (by decide +kernel) b
  simpa only [decimal, Bool.not_true, Bool.false_or, decide_eq_true_eq] using checked

/-- A number is written as its tenth part and one more digit. -/
theorem ofNat_eq (n : Nat) :
    ofNat n = (if n < 10 then [] else ofNat (n / 10)) ++ [UInt8.ofNat ('0'.toNat + n % 10)] := by
  unfold ofNat
  rw [Nat.toDigits_eq_if (by decide)]
  split
  · rename_i small
    rw [List.map_singleton, toUInt8_digitChar n small, Nat.mod_eq_of_lt small]
    rfl
  · rw [List.map_append, List.map_singleton, toUInt8_digitChar _ (Nat.mod_lt n (by decide))]

theorem ofNat_ne_nil (n : Nat) : ofNat n ≠ [] := by
  rw [ofNat_eq]
  simp

theorem isDigit_of_mem {n : Nat} {b : UInt8} (member : b ∈ ofNat n) : Bytes.isDigit b = true := by
  induction n using Nat.strongRecOn with
  | ind n ih =>
    rw [ofNat_eq, List.mem_append, List.mem_singleton] at member
    obtain member | rfl := member
    · split at member
      · cases member
      · exact ih (n / 10) (by omega) member
    · exact isDigit_ofNat _ (Nat.mod_lt n (by decide))

theorem exists_digit (n : Nat) : ∃ b rest, ofNat n = b :: rest ∧ Bytes.isDigit b = true := by
  obtain ⟨b, rest, written⟩ := List.exists_cons_of_ne_nil (ofNat_ne_nil n)
  exact ⟨b, rest, written, isDigit_of_mem (n := n) (by rw [written]; exact List.mem_cons_self)⟩

theorem ofNat_injective {m n : Nat} (same : ofNat m = ofNat n) : m = n := by
  induction m using Nat.strongRecOn generalizing n with
  | ind m ih =>
    rw [ofNat_eq m, ofNat_eq n] at same
    obtain ⟨front, last⟩ := List.append_inj' same rfl
    have lastDigit : m % 10 = n % 10 := by
      rw [← digit_ofNat _ (Nat.mod_lt m (by decide)), List.head_eq_of_cons_eq last,
        digit_ofNat _ (Nat.mod_lt n (by decide))]
    split at front <;> split at front
    · omega
    · exact absurd front.symm (ofNat_ne_nil _)
    · exact absurd front (ofNat_ne_nil _)
    · have := ih (m / 10) (by omega) front
      omega

theorem ofNat_digit {b : UInt8} (decimal : Bytes.isDigit b = true) : ofNat (digit b) = [b] := by
  obtain ⟨small, spelled⟩ := ofNat_of_isDigit decimal
  rw [ofNat_eq, if_pos small, Nat.mod_eq_of_lt small, spelled]
  rfl

theorem ofNat_concat {n : Nat} {b : UInt8} (positive : 0 < n)
    (decimal : Bytes.isDigit b = true) : ofNat (10 * n + digit b) = ofNat n ++ [b] := by
  obtain ⟨small, spelled⟩ := ofNat_of_isDigit decimal
  have front : (10 * n + digit b) / 10 = n := by omega
  have last : (10 * n + digit b) % 10 = digit b := by omega
  rw [ofNat_eq, if_neg (by omega), front, last, spelled]

theorem exists_of_append {n : Nat} {front rest : Bytes} (written : ofNat n = front ++ rest)
    (filled : front ≠ []) : ∃ m ≤ n, ofNat m = front ∧ (0 < n → 0 < m) := by
  induction n using Nat.strongRecOn generalizing rest with
  | ind n ih =>
    obtain rfl | ⟨rest, b, rfl⟩ := List.eq_nil_or_concat rest
    · exact ⟨n, Nat.le_refl n, by rw [written, List.append_nil], id⟩
    · rw [ofNat_eq, List.concat_eq_append, ← List.append_assoc] at written
      have front := List.append_inj_left' written rfl
      split at front
      · exact absurd (List.append_eq_nil_iff.mp front.symm).1 filled
      · obtain ⟨m, below, spelled, positive⟩ := ih (n / 10) (by omega) front
        exact ⟨m, by omega, spelled, fun _ => positive (by omega)⟩

/-- The first digit of a number other than zero. -/
theorem exists_first {n : Nat} (positive : 0 < n) :
    ∃ b rest, ofNat n = b :: rest ∧ Bytes.isDigit b = true ∧ 0 < digit b ∧ digit b ≤ n := by
  obtain ⟨b, rest, written, decimal⟩ := exists_digit n
  obtain ⟨m, below, spelled, nonzero⟩ :=
    exists_of_append (written.trans (List.singleton_append).symm) (List.cons_ne_nil b [])
  obtain rfl := ofNat_injective (spelled.trans (ofNat_digit decimal).symm)
  exact ⟨b, rest, written, decimal, nonzero positive, below⟩

/-- A digit behind the front of a number. -/
theorem le_of_append {m n : Nat} {b : UInt8} {rest : Bytes} (positive : 0 < m)
    (written : ofNat n = ofNat m ++ b :: rest) :
    Bytes.isDigit b = true ∧ 10 * m + digit b ≤ n := by
  have decimal : Bytes.isDigit b = true := isDigit_of_mem (n := n) (by rw [written]; simp)
  rw [List.append_cons] at written
  obtain ⟨front, below, spelled, -⟩ := exists_of_append written (by simp)
  obtain rfl := ofNat_injective (spelled.trans (ofNat_concat positive decimal).symm)
  exact ⟨decimal, below⟩

/-! ### Reading what is written -/

theorem readDigits_append (value : Nat) (digits rest : Bytes) :
    readDigits value (digits ++ rest) = readDigits value digits >>= (readDigits · rest) := by
  induction digits generalizing value with
  | nil => rfl
  | cons b digits ih =>
    rw [List.cons_append, readDigits, readDigits]
    split
    · dsimp only
      split
      · exact ih _
      · rfl
    · rfl

theorem readDigits_digit (value : Nat) {d : Nat} (small : d < 10) :
    readDigits value [UInt8.ofNat ('0'.toNat + d)] =
      if 10 * value + d < 0x1_0000_0000_0000_0000 then .ok (10 * value + d)
      else .error .outOfRange := by
  have next : 10 * value + ((UInt8.ofNat ('0'.toNat + d)).toNat - '0'.toNat) = 10 * value + d :=
    congrArg (10 * value + ·) (digit_ofNat d small)
  rw [readDigits, if_pos (isDigit_ofNat d small), next]
  rfl

/-- The digits of a number are read back, and numbers of more than 64 bits are found to be out of
range. -/
theorem readDigits_ofNat (n : Nat) : readDigits 0 (ofNat n) =
    if n < 0x1_0000_0000_0000_0000 then .ok n else .error .outOfRange := by
  induction n using Nat.strongRecOn with
  | ind n ih =>
    have parts : 10 * (n / 10) + n % 10 = n := Nat.div_add_mod n 10
    have last (value : Nat) := readDigits_digit value (Nat.mod_lt n (by decide : 10 > 0))
    rw [ofNat_eq]
    by_cases single : n < 10
    · rw [if_pos single, List.nil_append, last, Nat.mod_eq_of_lt single, Nat.mul_zero, Nat.zero_add]
    · rw [if_neg single, readDigits_append, ih (n / 10) (by omega)]
      by_cases fits : n / 10 < 0x1_0000_0000_0000_0000
      · rw [if_pos fits]
        exact (last (n / 10)).trans (by rw [parts])
      · rw [if_neg fits, if_neg (by omega)]
        rfl

theorem readNat_ofNat (n : Nat) : readNat (ofNat n) =
    if n < 0x1_0000_0000_0000_0000 then .ok n else .error .outOfRange := by
  obtain ⟨b, rest, written, -⟩ := exists_digit n
  rw [← readDigits_ofNat, written]
  rfl

theorem inRange_eq (n : Int) : inRange n =
    if -0x8000_0000_0000_0000 ≤ n ∧ n < 0x8000_0000_0000_0000 then .ok (Int64.ofInt n)
    else .error .outOfRange := by
  simp only [inRange, Bool.and_eq_true, decide_eq_true_eq]

theorem inRange_eq_ok_iff {n : Int} {word : Int64} : inRange n = .ok word ↔ n = word.toInt := by
  have low := word.le_toInt
  have high := word.toInt_lt
  rw [inRange_eq]
  split
  · rename_i inside
    have kept : (Int64.ofInt n).toInt = n := Int64.toInt_ofInt_of_le (by omega) (by omega)
    rw [Except.ok.injEq]
    constructor
    · rintro rfl
      exact kept.symm
    · rintro rfl
      exact word.ofInt_toInt
  · refine iff_of_false (fun same => ?_) (fun same => by omega)
    cases same

/-- With either sign, a number that is too long to be read is out of range. -/
theorem inRange_readNat {signed : Nat → Int} {n : Nat} (size : (signed n).natAbs = n) :
    (readNat (ofNat n) >>= fun n => inRange (signed n)) = inRange (signed n) := by
  rw [readNat_ofNat]
  split
  · rfl
  · rw [inRange_eq, if_neg (by omega)]
    rfl

/-- A written integer is read back exactly if it is in range. -/
theorem readInt64_ofInt (n : Int) : readInt64 (ofInt n) = inRange n := by
  cases n with
  | ofNat m =>
    obtain ⟨b, rest, written, decimal⟩ := exists_digit m
    have minus : (b == '-'.toUInt8) = false := beq_false_of_ne (by rintro rfl; cases decimal)
    have plus : (b == '+'.toUInt8) = false := beq_false_of_ne (by rintro rfl; cases decimal)
    have unsigned : readInt64 (b :: rest) = readNat (b :: rest) >>= fun m => inRange m := by
      rw [readInt64, minus, plus]
      rfl
    rw [ofInt, signed, written, unsigned, ← written]
    exact inRange_readNat (Int.natAbs_natCast m)
  | negSucc m =>
    have size : (-((m + 1 : Nat) : Int)).natAbs = m + 1 := by omega
    exact inRange_readNat size

end Asm68k.Decimal
