import Mathlib.Data.List.Infix
import Asm68k.Statement.Substitution
import Asm68k.Proofs.Decimal

/-!
Macro texts in one reading from left to right, which takes the longest placeholder wherever one
begins. Of all the ways to write a text in fragments, the reading has the fewest.
-/

namespace Asm68k

/-- A byte of a macro text, or the placeholder of an argument. -/
inductive Fragment where
  | byte (b : UInt8)
  | placeholder (index : Nat)
  deriving DecidableEq, Repr

namespace Fragment

open Decimal (digit)

/-- Which of `count` arguments has that number. Numbers have no leading zeros. -/
def number? (count : Nat) (digits : Bytes) : Option Nat :=
  (List.range' 1 count).find? (Decimal.ofNat · == digits)

/-- The longest number of an argument in a text that goes on after the digits read so far. -/
def longest? (count : Nat) (digits : Bytes) : Bytes → Option Nat
  | [] => number? count digits
  | b :: rest =>
    if Bytes.isDigit b then (longest? count (digits ++ [b]) rest).or (number? count digits)
    else number? count digits

def ofText (count : Nat) (text : Bytes) : List Fragment := go 0 text
where
  /-- The first argument counts the digits of a placeholder that are still to be dropped. -/
  go : Nat → Bytes → List Fragment
    | _, [] => []
    | skip + 1, _ :: rest => go skip rest
    | 0, b :: rest =>
      if b = '\\'.toUInt8 then
        match longest? count [] rest with
        | some index => .placeholder index :: go (Decimal.ofNat index).length rest
        | none => .byte b :: go 0 rest
      else .byte b :: go 0 rest

def written : Fragment → Bytes
  | .byte b => [b]
  | .placeholder index => placeholderText index

variable {count : Nat}

theorem number?_eq_some {digits : Bytes} {index : Nat} :
    number? count digits = some index ↔
      0 < index ∧ index ≤ count ∧ Decimal.ofNat index = digits := by
  unfold number?
  constructor
  · intro found
    have member := List.mem_of_find?_eq_some found
    have here := List.find?_some found
    rw [List.mem_range'_1] at member
    exact ⟨by omega, by omega, eq_of_beq here⟩
  · rintro ⟨positive, bounded, rfl⟩
    cases found : (List.range' 1 count).find? (Decimal.ofNat · == Decimal.ofNat index) with
    | none =>
      rw [List.find?_eq_none] at found
      exact absurd (beq_self_eq_true _) (found index (List.mem_range'_1.mpr (by omega)))
    | some other =>
      have here := List.find?_some found
      rw [Decimal.ofNat_injective (eq_of_beq here)]

theorem longest?_sound {digits text : Bytes} {index : Nat}
    (found : longest? count digits text = some index) :
    0 < index ∧ index ≤ count ∧ digits <+: Decimal.ofNat index ∧
      Decimal.ofNat index <+: digits ++ text := by
  have stopped (digits text : Bytes) (found : number? count digits = some index) :
      0 < index ∧ index ≤ count ∧ digits <+: Decimal.ofNat index ∧
        Decimal.ofNat index <+: digits ++ text := by
    obtain ⟨positive, bounded, rfl⟩ := number?_eq_some.mp found
    exact ⟨positive, bounded, List.prefix_rfl, List.prefix_append _ _⟩
  induction text generalizing digits with
  | nil => exact stopped digits [] found
  | cons b rest ih =>
    rw [longest?] at found
    split at found
    · obtain found | ⟨-, found⟩ := Option.or_eq_some_iff.mp found
      · obtain ⟨positive, bounded, begins, fits⟩ := ih found
        rw [List.append_assoc, List.singleton_append] at fits
        exact ⟨positive, bounded, (List.prefix_append digits [b]).trans begins, fits⟩
      · exact stopped digits (b :: rest) found
    · exact stopped digits (b :: rest) found

theorem longest?_complete {digits text : Bytes} {index : Nat} (positive : 0 < index)
    (bounded : index ≤ count) (begins : digits <+: Decimal.ofNat index)
    (fits : Decimal.ofNat index <+: digits ++ text) :
    ∃ longest, longest? count digits text = some longest ∧
      (Decimal.ofNat index).length ≤ (Decimal.ofNat longest).length := by
  induction text generalizing digits with
  | nil =>
    rw [List.append_nil] at fits
    have spelled := fits.eq_of_length_le begins.length_le
    exact ⟨index, number?_eq_some.mpr ⟨positive, bounded, spelled⟩, Nat.le_refl _⟩
  | cons b rest ih =>
    obtain ⟨behind, spelled⟩ := begins
    rw [← spelled, List.prefix_append_right_inj] at fits
    rw [longest?]
    cases behind with
    | nil =>
      rw [List.append_nil] at spelled
      have known := number?_eq_some.mpr ⟨positive, bounded, spelled.symm⟩
      split
      · cases longer : longest? count (digits ++ [b]) rest with
        | none => exact ⟨index, by rw [Option.none_or, known], Nat.le_refl _⟩
        | some longest =>
          obtain ⟨-, -, begins, -⟩ := longest?_sound longer
          refine ⟨longest, rfl, ?_⟩
          rw [← spelled]
          exact ((List.prefix_append digits [b]).trans begins).length_le
      · exact ⟨index, known, Nat.le_refl _⟩
    | cons c behind =>
      obtain ⟨rfl, rest⟩ := List.cons_prefix_cons.mp fits
      have decimal : Bytes.isDigit c = true :=
        Decimal.isDigit_of_mem (n := index) (by rw [← spelled]; simp)
      rw [List.append_cons] at spelled
      obtain ⟨longest, found, longer⟩ := ih ⟨behind, spelled⟩
        (by rwa [← spelled, List.prefix_append_right_inj])
      refine ⟨longest, ?_, longer⟩
      rw [if_pos decimal, found, Option.some_or]

/-! ### Reading -/

/-- One reading of a text. A byte is copied where no placeholder begins. -/
inductive Reading (count : Nat) : Bytes → List Fragment → Prop where
  | nil : Reading count [] []
  | byte {b : UInt8} {rest : Bytes} {fragments : List Fragment}
      (plain : b = '\\'.toUInt8 → ∀ index, 0 < index → index ≤ count →
        ¬ Decimal.ofNat index <+: rest)
      (later : Reading count rest fragments) :
      Reading count (b :: rest) (.byte b :: fragments)
  | placeholder {index : Nat} {rest : Bytes} {fragments : List Fragment} (positive : 0 < index)
      (bounded : index ≤ count)
      (longest : ∀ other, 0 < other → other ≤ count →
        Decimal.ofNat other <+: Decimal.ofNat index ++ rest →
          (Decimal.ofNat other).length ≤ (Decimal.ofNat index).length)
      (later : Reading count rest fragments) :
      Reading count (placeholderText index ++ rest) (.placeholder index :: fragments)

theorem ofText_go_eq (skip : Nat) (text : Bytes) :
    ofText.go count skip text = ofText count (text.drop skip) := by
  unfold ofText
  induction text generalizing skip with
  | nil => rw [List.drop_nil, ofText.go, ofText.go]
  | cons b rest ih =>
    cases skip with
    | zero => rfl
    | succ skip => rw [ofText.go, List.drop_succ_cons, ih]

theorem reading_ofText (count : Nat) (text : Bytes) : Reading count text (ofText count text) := by
  match text with
  | [] => exact .nil
  | b :: rest =>
    have complete {index : Nat} (positive : 0 < index) (bounded : index ≤ count)
        (fits : Decimal.ofNat index <+: rest) :=
      longest?_complete positive bounded List.nil_prefix fits
    rw [ofText, ofText.go]
    split
    · rename_i backslash
      split
      · rename_i index found
        obtain ⟨positive, bounded, -, behind, rfl⟩ := longest?_sound found
        rw [ofText_go_eq, List.drop_left, backslash]
        refine .placeholder positive bounded ?_ (reading_ofText count behind)
        intro other positive bounded fits
        obtain ⟨longest, again, longer⟩ := complete positive bounded fits
        obtain rfl := Option.some.inj (found.symm.trans again)
        exact longer
      · rename_i missed
        refine .byte ?_ (reading_ofText count rest)
        intro _ index positive bounded fits
        obtain ⟨longest, found, -⟩ := complete positive bounded fits
        rw [missed] at found
        cases found
    · rename_i other
      exact .byte (fun backslash => absurd backslash other) (reading_ofText count rest)
termination_by text.length

/-- The placeholders are those of `count` arguments. -/
def InRange (count : Nat) (fragments : List Fragment) : Prop :=
  ∀ index, .placeholder index ∈ fragments → 0 < index ∧ index ≤ count

theorem InRange.of_subset {fragments others : List Fragment} (inRange : InRange count fragments)
    (subset : others ⊆ fragments) : InRange count others :=
  fun index member => inRange index (subset member)

namespace Reading

variable {text : Bytes} {fragments others : List Fragment}

theorem written_eq (reading : Reading count text fragments) :
    fragments.flatMap written = text := by
  induction reading with
  | nil => rfl
  | byte _ _ ih =>
    rw [List.flatMap_cons, ih]
    rfl
  | placeholder _ _ _ _ ih =>
    rw [List.flatMap_cons, ih]
    rfl

theorem inRange (reading : Reading count text fragments) : InRange count fragments := by
  intro index member
  induction reading with
  | nil => cases member
  | byte _ _ ih =>
    obtain same | member := List.mem_cons.mp member
    · cases same
    · exact ih member
  | placeholder positive bounded _ _ ih =>
    obtain same | member := List.mem_cons.mp member
    · cases same
      exact ⟨positive, bounded⟩
    · exact ih member

end Reading

/-! ### The shortest way to write a text -/

section

variable {index : Nat} {rest : Bytes} {fragments : List Fragment}

theorem eq_bytes_append {digits : Bytes} (decimal : ∀ b ∈ digits, Bytes.isDigit b = true)
    (begins : fragments.flatMap written = digits ++ rest) :
    ∃ later, fragments = digits.map .byte ++ later ∧ later.flatMap written = rest := by
  induction digits generalizing fragments with
  | nil => exact ⟨fragments, rfl, begins⟩
  | cons b digits ih =>
    obtain ⟨here, behind⟩ := List.forall_mem_cons.mp decimal
    cases fragments with
    | nil => cases begins
    | cons fragment fragments =>
      rw [List.flatMap_cons] at begins
      cases fragment with
      | byte c =>
        obtain ⟨rfl, spelled⟩ := List.cons.inj begins
        obtain ⟨later, rfl, after⟩ := ih behind spelled
        exact ⟨later, rfl, after⟩
      | placeholder index =>
        obtain rfl : '\\'.toUInt8 = b := List.head_eq_of_cons_eq begins
        exact absurd here (by decide)

/-- Where a number is read, a shorter one has the other digits behind it. -/
theorem eq_digits_append {shorter : Nat}
    (short : (Decimal.ofNat shorter).length ≤ (Decimal.ofNat index).length)
    (joined : Decimal.ofNat shorter ++ fragments.flatMap written = Decimal.ofNat index ++ rest) :
    ∃ digits later, Decimal.ofNat index = Decimal.ofNat shorter ++ digits ∧
      fragments = digits.map .byte ++ later ∧ later.flatMap written = rest := by
  obtain ⟨digits, front⟩ :=
    List.prefix_of_prefix_length_le ⟨_, joined⟩ (List.prefix_append _ rest) short
  have decimal (b : UInt8) (member : b ∈ digits) : Bytes.isDigit b = true :=
    Decimal.isDigit_of_mem (n := index) (by rw [← front]; exact List.mem_append_right _ member)
  rw [← front, List.append_assoc, List.append_cancel_left_eq] at joined
  obtain ⟨later, spelled, after⟩ := eq_bytes_append decimal joined
  exact ⟨digits, later, front.symm, spelled, after⟩

theorem infix_of_bytes_append {next : Fragment} {bytes : Bytes}
    (pair : [.placeholder index, next] <:+: bytes.map .byte ++ fragments) :
    [.placeholder index, next] <:+: fragments := by
  induction bytes with
  | nil => exact pair
  | cons b bytes ih =>
    obtain first | pair := List.infix_cons_iff.mp pair
    · cases (List.cons_prefix_cons.mp first).1
    · exact ih pair

end

/-- A text has no fewer fragments than its reading, and more if a digit behind a placeholder makes
it that of another argument. -/
theorem Reading.length_le {text : Bytes} {fragments others : List Fragment}
    (reading : Reading count text fragments) (inRange : InRange count others)
    (spelled : others.flatMap written = text) :
    fragments.length ≤ others.length ∧
      ∀ index b, [.placeholder index, .byte b] <:+: others → Bytes.isDigit b = true →
        10 * index + digit b ≤ count → fragments.length < others.length := by
  induction reading generalizing others with
  | nil =>
    refine ⟨Nat.zero_le _, fun index b pair _ _ => ?_⟩
    exact Nat.lt_of_lt_of_le (Nat.succ_pos 1) pair.length_le
  | @byte b rest fragments plain later ih =>
    cases others with
    | nil => cases spelled
    | cons other others =>
      rw [List.flatMap_cons] at spelled
      cases other with
      | byte c =>
        obtain ⟨le, lt⟩ := ih (inRange.of_subset (List.subset_cons_self _ _))
          (List.cons.inj spelled).2
        refine ⟨Nat.succ_le_succ le, fun index b pair decimal small => ?_⟩
        obtain first | pair := List.infix_cons_iff.mp pair
        · cases (List.cons_prefix_cons.mp first).1
        · exact Nat.succ_lt_succ (lt index b pair decimal small)
      | placeholder index =>
        obtain ⟨positive, bounded⟩ := inRange index List.mem_cons_self
        obtain ⟨backslash, joined⟩ := List.cons.inj spelled
        exact absurd ⟨_, joined⟩ (plain backslash.symm index positive bounded)
  | @placeholder index rest fragments positive bounded longest later ih =>
    cases others with
    | nil => cases spelled
    | cons other others =>
      rw [List.flatMap_cons] at spelled
      have later := inRange.of_subset (List.subset_cons_self other others)
      cases other with
      | byte c =>
        -- The number is spelled out, and it has at least one digit.
        obtain ⟨others, rfl, after⟩ :=
          eq_bytes_append (fun b => Decimal.isDigit_of_mem) (List.cons.inj spelled).2
        have le := (ih (later.of_subset (List.subset_append_right _ _)) after).1
        have more := List.length_pos_iff.mpr (Decimal.ofNat_ne_nil index)
        rw [List.length_cons, List.length_cons, List.length_append, List.length_map]
        exact ⟨by omega, fun _ _ _ _ _ => by omega⟩
      | placeholder shorter =>
        obtain ⟨positive, bounded⟩ := inRange shorter List.mem_cons_self
        have joined : Decimal.ofNat shorter ++ others.flatMap written =
          Decimal.ofNat index ++ rest := (List.cons.inj spelled).2
        obtain ⟨digits, others, front, rfl, after⟩ :=
          eq_digits_append (longest shorter positive bounded ⟨_, joined⟩) joined
        obtain ⟨le, lt⟩ := ih (later.of_subset (List.subset_append_right _ _)) after
        rw [List.length_cons, List.length_cons, List.length_append, List.length_map]
        refine ⟨by omega, fun index b pair decimal small => ?_⟩
        obtain first | pair := List.infix_cons_iff.mp pair
        · obtain ⟨same, next⟩ := List.cons_prefix_cons.mp first
          cases same
          cases digits with
          | cons c digits =>
            rw [List.length_cons]
            omega
          | nil =>
            -- The digit is the next byte of the text, so a longer number could have been read.
            obtain ⟨others, rfl⟩ := next
            have longer := longest (10 * shorter + digit b) (by omega) small
            rw [Decimal.ofNat_concat positive decimal, front, List.append_nil, ← after,
              List.length_append] at longer
            exact absurd (longer ((List.prefix_append_right_inj _).mpr ⟨_, rfl⟩))
              (Nat.not_succ_le_self _)
        · have := lt index b (infix_of_bytes_append pair) decimal small
          omega

end Fragment

end Asm68k
