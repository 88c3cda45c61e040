import Mathlib.Algebra.BigOperators.Group.List.Basic
import Mathlib.Algebra.Order.BigOperators.Group.List
import Mathlib.Algebra.Order.Ring.Int
import Asm68k.Proofs.Statement.Data

/-!
Reserved memory. Its length is the number of elements times their width exactly if the product is a
signed word, and otherwise what is left of the product in a word, which may be negative. No other
statement has a negative length: `length_reserved`.
-/

namespace Asm68k

/-! ### Words -/

theorem toInt_ofNat_eq_iff (n : Nat) : (Int64.ofNat n).toInt = n ↔ n < 2 ^ 63 := by
  have above := (Int64.ofNat n).toInt_lt
  constructor
  · intro same
    omega
  · exact Int64.toInt_ofNat_of_lt

theorem toInt_ofNat_neg_iff (n : Nat) : (Int64.ofNat n).toInt < 0 ↔ 2 ^ 63 ≤ n % 2 ^ 64 := by
  have whole : Int64.size = 2 ^ 64 := rfl
  rw [Int64.toInt_ofNat', Int.bmod_def, whole]
  split <;> omega

/-! ### Lengths of texts -/

theorem Token.length_contents_le (mark : UInt8) (text : Bytes) :
    (contents mark text).length ≤ text.length := by
  have pairs (inner : Bytes) : (inner.replaceAll [mark, mark] [mark]).length ≤ inner.length :=
    Bytes.length_replaceAll_le (by simp) (by simp) inner
  unfold contents
  dsimp only
  split
  · have shorter := pairs text.dropLast
    rw [List.length_dropLast] at shorter
    omega
  · exact pairs text

theorem Lexeme.Cut.sum_length_le {dot : Bool} {i : Nat} {text : Bytes} {pieces : List Lexeme}
    (cut : Cut dot i text pieces) : (pieces.map (·.text.length)).sum ≤ text.length := by
  induction cut with
  | nil => exact Nat.le_refl 0
  | gap _ _ ih => exact Nat.le_succ_of_le ih
  | comment => simp
  | piece _ _ _ _ ih =>
    rw [List.map_cons, List.sum_cons, List.length_append, List.length_append]
    omega

namespace Statement

/-- The arguments are among the pieces of the line. -/
theorem operands_sublist (line : Bytes) :
    ((ofLine line).operands.map (·.text)).Sublist ((Lexeme.ofLine line).map (·.text)) := by
  have words : ((Token.ofLine line).filter Token.isWord).tail.Sublist (Token.ofLine line) :=
    (List.tail_sublist _).trans List.filter_sublist
  have texts := words.map Token.text
  have pieces : (Token.ofLine line).map Token.text = (Lexeme.ofLine line).map (·.text) := by
    rw [← Token.map_lexeme_ofLexemes .beforeOperation (Lexeme.ofLine line), List.map_map]
    rfl
  rw [pieces] at texts
  rw [ofLine, ofTokens, List.map_map]
  exact texts

theorem sum_operands_le (line : Bytes) :
    ((ofLine line).operands.map (·.text.length)).sum ≤ line.length := by
  have lengths := (operands_sublist line).map List.length
  rw [List.map_map, List.map_map] at lengths
  exact Nat.le_trans (lengths.sum_le_sum fun n _ => Nat.zero_le n)
    (Lexeme.cut_ofLine line).sum_length_le

theorem operand_filled {line : Bytes} {operand : Operand}
    (member : operand ∈ (ofLine line).operands) : 1 ≤ operand.text.length := by
  have among := (operands_sublist line).subset (List.mem_map_of_mem member)
  obtain ⟨l, piece, text⟩ := List.mem_map.mp among
  rw [← text]
  exact List.length_pos_iff.mpr ((Lexeme.cut_ofLine line).split piece).1

theorem length_operands_le (line : Bytes) : (ofLine line).operands.length ≤ line.length := by
  have each : ∀ n ∈ (ofLine line).operands.map (·.text.length), 1 ≤ n := by
    intro n member
    obtain ⟨operand, among, rfl⟩ := List.mem_map.mp member
    exact operand_filled among
  have least := List.length_le_sum_of_one_le _ each
  rw [List.length_map] at least
  exact Nat.le_trans least (sum_operands_le line)

theorem dataLength_le {line : Bytes} {operand : Operand}
    (member : operand ∈ (ofLine line).operands) : operand.dataLength ≤ operand.text.length := by
  have filled := operand_filled member
  rw [dataLength_of_mem member]
  cases text : operand.text with
  | nil => simp [text] at filled
  | cons b rest =>
    rw [List.length_cons]
    dsimp only
    split
    · exact Nat.le_succ_of_le (Token.length_contents_le b rest)
    · exact Nat.succ_pos _

theorem dataBytes_le (line : Bytes) : dataBytes (ofLine line).operands ≤ line.length := by
  have each : ((ofLine line).operands.map Operand.dataLength).sum ≤
      ((ofLine line).operands.map (·.text.length)).sum :=
    List.sum_le_sum fun operand member => dataLength_le member
  exact Nat.le_trans each (sum_operands_le line)

/-! ### Lengths that are bounded by the line -/

theorem extensionWords_le (mnemonic : Mnemonic) (size : Option Size) (mode : Option Mode) :
    extensionWords mnemonic size mode ≤ 2 := by
  unfold extensionWords
  split
  any_goals omega
  all_goals split_ifs <;> omega

theorem instructionLength_le (mnemonic : Mnemonic) (size : Option Size) (operands : List Operand) :
    instructionLength mnemonic size operands ≤ 4 * operands.length + 4 := by
  have words : operands.foldr
      (fun operand words => extensionWords mnemonic size operand.mode? + words) 1 ≤
        2 * operands.length + 1 := by
    induction operands with
    | nil => exact Nat.le_refl 1
    | cons operand operands ih =>
      have here := extensionWords_le mnemonic size operand.mode?
      rw [List.foldr_cons, List.length_cons]
      omega
  unfold instructionLength
  split_ifs <;> omega

theorem width_le (size : Size) : size.width ≤ 12 := by
  cases size <;> decide

/-! ### Reservations -/

/-- The number of elements that a statement reserves, if it can be computed, and their width. -/
def reservation? (symbols : Bytes → Option Int64) (statement : Statement) : Option (Int64 × Nat) :=
  match statement.opcode, statement.operands with
  | some ⟨.directive directive, _, size⟩, operand :: _ =>
    if directive = .ds ∨ directive = .dcb then
      (Expression.value? symbols operand.text).map (·, (size.getD .word).width)
    else none
  | _, _ => none

variable {symbols : Bytes → Option Int64} {count : Int64} {width : Nat}

theorem mul_ofNat_eq (positive : 0 < count) (width : Nat) :
    count * Int64.ofNat width = Int64.ofNat (count.toInt.toNat * width) := by
  have above : 0 ≤ count.toInt := Int.le_of_lt (Int64.lt_iff_toInt_lt.mp positive)
  have same : Int64.ofNat count.toInt.toNat = count := by
    rw [← Int64.ofInt_eq_ofNat, Int.toNat_of_nonneg above, Int64.ofInt_toInt]
  rw [Int64.ofNat_mul, same]

theorem length_of_reservation {statement : Statement}
    (reserves : statement.reservation? symbols = some (count, width)) :
    statement.length symbols = Int64.ofNat (count.toInt.toNat * width) := by
  unfold reservation? at reserves
  split at reserves
  · rename_i directive start size operand operands spelled written
    split at reserves
    · rename_i kind
      obtain ⟨value, known, same⟩ := Option.map_eq_some_iff.mp reserves
      cases same
      have reserved : statement.length symbols =
          reservedLength symbols size (operand :: operands) := by
        rw [length, spelled, written]
        rcases kind with rfl | rfl <;> rfl
      rw [reserved, reservedLength, known]
      by_cases nonpositive : count ≤ 0
      · have none : count.toInt.toNat = 0 :=
          Int.toNat_of_nonpos (Int64.le_iff_toInt_le.mp nonpositive)
        rw [none, Nat.zero_mul]
        exact if_pos nonpositive
      · rw [← mul_ofNat_eq (Int64.not_le.mp nonpositive)]
        exact if_neg nonpositive
    · cases reserves
  · cases reserves

theorem reservedLength_of_unknown {operands : List Operand} {size : Option Size}
    (unknown : ∀ operand ∈ operands.head?, Expression.value? symbols operand.text = none) :
    reservedLength symbols size operands = 0 := by
  cases operands with
  | nil => rfl
  | cons operand operands => rw [reservedLength, unknown operand rfl]

theorem reservedLength_of_none {statement : Statement} {directive : Directive} {start : Nat}
    {size : Option Size} (spelled : statement.opcode = some ⟨.directive directive, start, size⟩)
    (kind : directive = .ds ∨ directive = .dcb) (none : statement.reservation? symbols = none) :
    reservedLength symbols size statement.operands = 0 := by
  apply reservedLength_of_unknown
  intro operand first
  obtain ⟨operands, written⟩ := List.head?_eq_some_iff.mp first
  simpa only [reservation?, spelled, written, if_pos kind, Option.map_eq_none_iff] using none

/-- Without a reservation the length is at most a small multiple of the length of the line. -/
theorem exists_length_of_none {line : Bytes} (none : (ofLine line).reservation? symbols = none) :
    ∃ n ≤ 12 * line.length + 4, (ofLine line).length symbols = Int64.ofNat n := by
  have operands := length_operands_le line
  have data : dataBytes (ofLine line).operands ≤ 12 * line.length + 4 := by
    have bytes := dataBytes_le line
    omega
  unfold length
  split
  · rename_i mnemonic start size spelled
    have instruction := instructionLength_le mnemonic size (ofLine line).operands
    exact ⟨_, by omega, rfl⟩
  · rename_i directive start size spelled
    cases directive with
    | dc =>
      have elements (size : Size) :
          (ofLine line).operands.length * size.width ≤ 12 * line.length + 4 := by
        have product := Nat.mul_le_mul operands (width_le size)
        omega
      match size with
      | .none | some .byte => exact ⟨_, data, rfl⟩
      | some .word | some .long | some .short | some .double | some .quad | some .extended =>
        exact ⟨_, elements _, rfl⟩
    | db => exact ⟨_, data, rfl⟩
    | dw | dl => exact ⟨_, by omega, rfl⟩
    | dcb => exact ⟨0, Nat.zero_le _, reservedLength_of_none spelled (.inr rfl) none⟩
    | ds => exact ⟨0, Nat.zero_le _, reservedLength_of_none spelled (.inl rfl) none⟩
    | _ => exact ⟨0, Nat.zero_le _, rfl⟩
  · exact ⟨0, Nat.zero_le _, rfl⟩

/-- A reservation has the length of its elements as a word, which is their length exactly if this
is a signed word. A statement has a negative length exactly if it reserves so much that the sign of
the word is reached. -/
theorem length_reserved (symbols : Bytes → Option Int64) :
    (∀ (statement : Statement) (count : Int64) (width : Nat),
      statement.reservation? symbols = some (count, width) →
        statement.length symbols = Int64.ofNat (count.toInt.toNat * width) ∧
        ((statement.length symbols).toInt = (count.toInt.toNat * width : Nat) ↔
          count.toInt.toNat * width < 2 ^ 63)) ∧
    ∀ line : Bytes, line.length < 2 ^ 59 →
      (((ofLine line).length symbols).toInt < 0 ↔
        ∃ count width, (ofLine line).reservation? symbols = some (count, width) ∧
          2 ^ 63 ≤ count.toInt.toNat * width % 2 ^ 64) := by
  constructor
  · intro statement count width reserves
    have word := length_of_reservation reserves
    rw [word]
    exact ⟨rfl, toInt_ofNat_eq_iff _⟩
  · intro line short
    cases reserves : (ofLine line).reservation? symbols with
    | none =>
      obtain ⟨n, bound, length⟩ := exists_length_of_none reserves
      have small : n < 2 ^ 63 := by omega
      rw [length, Int64.toInt_ofNat_of_lt small]
      simp
    | some reservation =>
      obtain ⟨count, width⟩ := reservation
      rw [length_of_reservation reserves, toInt_ofNat_neg_iff]
      simp

/-- The largest number of long words whose length is a signed word. -/
theorem length_reserved_longs :
    let line := Bytes.ofString " ds.l n"
    let symbols := fun name : Bytes =>
      if name = Bytes.ofString "n" then some 0x1FFF_FFFF_FFFF_FFFF else none
    ((ofLine line).reservation? symbols = some (0x1FFF_FFFF_FFFF_FFFF, 4) ∧
      line.length < 2 ^ 59) ∧
    ((ofLine line).length symbols).toInt = 0x7FFF_FFFF_FFFF_FFFC ∧
      ¬ ((ofLine line).length symbols).toInt < 0 := by
  intro line symbols
  have reserves : (ofLine line).reservation? symbols = some (0x1FFF_FFFF_FFFF_FFFF, 4) := by
    decide +kernel
  have short : line.length < 2 ^ 59 := by decide +kernel
  have whole := ((length_reserved symbols).1 _ _ _ reserves).2.mpr (by decide)
  have negative := (length_reserved symbols).2 line short
  refine ⟨⟨reserves, short⟩, whole, ?_⟩
  rw [negative]
  rintro ⟨count, width, same, reached⟩
  rw [reserves] at same
  cases same
  exact absurd reached (by decide)

/-- One byte more than a signed word can count, and the length is negative. -/
theorem length_reserved_wraps :
    let statement := ofLine (Bytes.ofString " ds.w $4000000000000000")
    statement.reservation? (fun _ => none) = some (0x4000_0000_0000_0000, 2) ∧
      (statement.length fun _ => none).toInt = -0x8000_0000_0000_0000 ∧
      (statement.length fun _ => none).toInt ≠
        ((0x4000_0000_0000_0000 : Int64).toInt.toNat * 2 : Nat) := by
  decide +kernel

end Statement

end Asm68k
