import Mathlib.Data.Nat.Digits.Defs
import Asm68k.Expression.Item
import Asm68k.Proofs.Rune

/-!
Literals of expressions: numbers in four bases and quoted bytes. A literal is read as its value when
no byte of a name follows.
-/

namespace Asm68k.Expression

/-! ### Literals and their values -/

/-- The byte stands for the digit; letters may have either case. -/
def Digit (b : UInt8) (d : Nat) : Prop :=
  b ∈ (Bytes.ofString "0123456789abcdef")[d]? ∨ b ∈ (Bytes.ofString "0123456789ABCDEF")[d]?

instance (b : UInt8) : DecidablePred (Digit b) := fun _ => inferInstanceAs (Decidable (_ ∨ _))

/-- The text writes the number `n`; leading zeros are allowed. -/
def Numeral (base : Nat) (text : Bytes) (n : Nat) : Prop :=
  ∃ digits, digits ≠ [] ∧ List.Forall₂ Digit text digits ∧ (∀ d ∈ digits, d < base) ∧
    Nat.ofDigits base digits.reverse = n

/-- What stands in front of a number, and its base. -/
def radices : List (Bytes × Nat) :=
  [([], 10), (['$'.toUInt8], 16), (['%'.toUInt8], 2), (['@'.toUInt8], 8)]

inductive Literal : Int64 → Bytes → Prop
  | number {mark : Bytes} {base : Nat} {text : Bytes} {n : UInt64}
      (radix : (mark, base) ∈ radices) (numeral : Numeral base text n.toNat) :
    Literal n.toInt64 (mark ++ text)
  | quoted {mark : UInt8} {bytes : Bytes} (quote : mark = '\''.toUInt8 ∨ mark = '"'.toUInt8)
      (least : 1 ≤ bytes.length) (most : bytes.length ≤ 4) (inner : mark ∉ bytes) :
    Literal (.ofNat (Nat.ofDigits 256 (bytes.map UInt8.toNat).reverse)) (mark :: bytes ++ [mark])

/-! ### Digits -/

namespace Digit

theorem lt {b : UInt8} {d : Nat} (digit : Digit b d) : d < 16 := by
  rcases digit with h | h
  all_goals exact (List.getElem?_eq_some_iff.mp h).1

/-- The digits are few, so a decidable fact about them is checked on each. -/
theorem all {p : UInt8 → Nat → Bool} (checked : ∀ d < 16,
      ∀ b ∈ (Bytes.ofString "0123456789abcdef")[d]?.toList ++
        (Bytes.ofString "0123456789ABCDEF")[d]?.toList, p b d = true)
    {b : UInt8} {d : Nat} (digit : Digit b d) : p b d = true := by
  apply checked d digit.lt b
  rcases digit with h | h
  · exact List.mem_append_left _ (Option.mem_toList.mpr h)
  · exact List.mem_append_right _ (Option.mem_toList.mpr h)

theorem classified {b : UInt8} {d : Nat} (digit : Digit b d) :
    (Bytes.isDigit b || Item.isLetter b) = true ∧ Item.digitValue b = d ∧
      Bytes.isDigit b = decide (d < 10) := by
  have := all (p := fun b d => (Bytes.isDigit b || Item.isLetter b) && Item.digitValue b == d &&
    Bytes.isDigit b == decide (d < 10)) (by decide +kernel) digit
  simpa [and_assoc] using this

theorem isDigitOf {b : UInt8} {d base : Nat} (digit : Digit b d) (below : d < base) :
    Item.isDigitOf base b = true := by
  obtain ⟨alphanumeric, value, -⟩ := digit.classified
  rw [Item.isDigitOf, alphanumeric, value, Bool.true_and]
  exact decide_eq_true below

end Digit

namespace Numeral

variable {base n : Nat} {text : Bytes}

theorem nonempty (numeral : Numeral base text n) : text ≠ [] := by
  obtain ⟨digits, nonempty, spelled, -⟩ := numeral
  rintro rfl
  cases spelled
  exact nonempty rfl

theorem isDigitOf (numeral : Numeral base text n) : ∀ b ∈ text, Item.isDigitOf base b = true := by
  obtain ⟨digits, -, spelled, below, -⟩ := numeral
  induction spelled with
  | nil => exact List.forall_mem_nil _
  | cons digit _ ih =>
    have ⟨first, others⟩ := List.forall_mem_cons.mp below
    exact List.forall_mem_cons.mpr ⟨digit.isDigitOf first, ih others⟩

theorem decimal (numeral : Numeral 10 text n) : ∀ b ∈ text, Bytes.isDigit b = true := by
  obtain ⟨digits, -, spelled, below, -⟩ := numeral
  induction spelled with
  | nil => exact List.forall_mem_nil _
  | cons digit _ ih =>
    have ⟨first, others⟩ := List.forall_mem_cons.mp below
    exact List.forall_mem_cons.mpr
      ⟨digit.classified.2.2.trans (decide_eq_true first), ih others⟩

end Numeral

namespace Item

/-- The text is at its end, or what follows is no byte of a name. -/
def Ended (rest : Bytes) : Prop := ∀ b ∈ rest.head?, isNameByte b = false

theorem isNameByte_of_isDigitOf {base : Nat} {b : UInt8} (digit : isDigitOf base b = true) :
    isNameByte b = true := by
  unfold isDigitOf at digit
  unfold isNameByte startsName
  cases letter : isLetter b <;> cases decimal : Bytes.isDigit b <;> simp_all

/-! ### Reading numbers -/

theorem foldl_digits {base : Nat} {text : Bytes} {digits : List Nat}
    (spelled : List.Forall₂ Digit text digits) :
    text.foldl (fun n b => base * n + digitValue b) 0 = Nat.ofDigits base digits.reverse := by
  have values : text.map digitValue = digits := by
    induction spelled with
    | nil => rfl
    | cons digit _ ih => rw [List.map_cons, ih, digit.classified.2.1]
  rw [Nat.ofDigits_eq_foldr, List.foldr_reverse, ← values, List.foldl_map]
  simp only [Nat.cast_id, Nat.add_comm]

theorem number_numeral {base : Nat} {text : Bytes} {n : UInt64}
    (numeral : Numeral base text n.toNat) (mark : Bytes) {rest : Bytes} (ended : Ended rest) :
    number mark base (text ++ rest) = .ok (n.toInt64, text.length) := by
  have inside := numeral.isDigitOf
  have nonempty : text.isEmpty = false := List.isEmpty_eq_false_iff.mpr numeral.nonempty
  obtain ⟨digits, -, spelled, -, value⟩ := numeral
  have stop : ∀ b ∈ rest.head?, isDigitOf base b = false := by
    intro b next
    cases digit : isDigitOf base b with
    | false => rfl
    | true => rw [← isNameByte_of_isDigitOf digit, ended b next]
  have ⟨taken, left⟩ := Bytes.takeWhile_ended inside stop
  have nothing : rest.head?.filter isNameByte = none := by
    cases rest with
    | nil => rfl
    | cons b rest => simp [ended b rfl]
  unfold number
  dsimp only
  rw [taken, left, nonempty, nothing, foldl_digits spelled, value]
  dsimp only
  rw [if_neg Bool.false_ne_true, if_pos n.toNat_lt, UInt64.ofNat_toNat]

/-! ### Reading quoted bytes -/

theorem shiftLeft_or_byte (n : Nat) (b : UInt8) :
    Int64.ofNat n <<< 8 ||| b.toUInt64.toInt64 = Int64.ofNat (256 * n + b.toNat) := by
  have low : BitVec.ofNat 64 n <<< 8 &&& b.toBitVec.setWidth 64 = 0#64 := by
    apply BitVec.eq_of_getLsbD_eq
    intro i inside
    rw [BitVec.getLsbD_and, BitVec.getLsbD_shiftLeft, BitVec.getLsbD_setWidth]
    by_cases low : i < 8
    · simp [low]
    · simp [BitVec.getLsbD_of_ge b.toBitVec i (Nat.not_lt.mp low)]
  apply Int64.toBitVec_inj.mp
  show BitVec.ofNat 64 n <<< 8 ||| b.toBitVec.setWidth 64 = BitVec.ofNat 64 (256 * n + b.toNat)
  rw [← BitVec.add_eq_or_of_and_eq_zero _ _ low]
  apply BitVec.eq_of_toNat_eq
  have := b.toNat_lt
  simp only [BitVec.toNat_add, BitVec.toNat_shiftLeft, BitVec.toNat_ofNat, BitVec.toNat_setWidth,
    UInt8.toNat_toBitVec, Nat.shiftLeft_eq]
  omega

theorem foldl_bytes (bytes : Bytes) :
    bytes.foldl (fun (v : Int64) b => v <<< 8 ||| b.toUInt64.toInt64) (0 : Int64) =
      .ofNat (Nat.ofDigits 256 (bytes.map UInt8.toNat).reverse) := by
  have general (bytes : Bytes) (n : Nat) :
      bytes.foldl (fun (v : Int64) b => v <<< 8 ||| b.toUInt64.toInt64) (Int64.ofNat n) =
        .ofNat (bytes.foldl (fun n b => 256 * n + b.toNat) n) := by
    induction bytes generalizing n with
    | nil => rfl
    | cons b bytes ih => rw [List.foldl_cons, List.foldl_cons, shiftLeft_or_byte, ih]
  rw [Nat.ofDigits_eq_foldr, List.foldr_reverse, List.foldl_map]
  simp only [Nat.cast_id, Nat.add_comm _ (256 * _)]
  exact general bytes 0

theorem characters_quoted {mark : UInt8} {bytes : Bytes} (least : 1 ≤ bytes.length)
    (most : bytes.length ≤ 4) (inner : mark ∉ bytes) (rest : Bytes) :
    characters mark (bytes ++ mark :: rest) =
      .ok (.ofNat (Nat.ofDigits 256 (bytes.map UInt8.toNat).reverse), bytes.length) := by
  have inside : ∀ b ∈ bytes, (b != mark) = true := by
    intro b member
    exact bne_iff_ne.mpr fun same => inner (same ▸ member)
  have stop : ∀ b ∈ (mark :: rest).head?, (b != mark) = false := by
    intro b next
    obtain rfl := Option.some.inj next
    exact bne_self_eq_false _
  have ⟨taken, left⟩ := Bytes.takeWhile_ended inside stop
  have short : (decide (1 ≤ bytes.length) && decide (bytes.length ≤ 4)) = true := by
    simp [least, most]
  unfold characters Bytes.cut?
  rw [left]
  dsimp only
  rw [taken, if_pos short, foldl_bytes]

end Item

end Asm68k.Expression
