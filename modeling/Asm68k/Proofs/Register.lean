import Mathlib.Algebra.Ring.Nat
import Mathlib.Data.Finset.Card
import Mathlib.Data.List.Forall2
import Mathlib.Data.List.Intervals
import Asm68k.Proofs.Letters

/-!
Register lists. The parts of a list are blank, a register or a range of registers, and the list counts
the registers of all its parts: `countList_written`. Each register has its names, which may stand in
either case and between white space.
-/

namespace Asm68k

/-! ### White space -/

/-- The code points of white space. -/
def Rune.spaceCodes : List Nat :=
  [0x09, 0x0A, 0x0B, 0x0C, 0x0D, 0x20, 0x85, 0xA0, 0x1680, 0x2000, 0x2001, 0x2002, 0x2003, 0x2004,
    0x2005, 0x2006, 0x2007, 0x2008, 0x2009, 0x200A, 0x2028, 0x2029, 0x202F, 0x205F, 0x3000]

theorem Rune.lowerChar_of_isSpace {c : Char} (space : isSpace (.scalar c) = true) :
    lowerChar c = c := by
  have checked : spaceCodes.all (fun n => lowerChar (Char.ofNat n) == Char.ofNat n) = true := by
    decide
  have member : c.toNat ∈ spaceCodes := by
    simp only [isSpace, Bool.or_eq_true, Bool.and_eq_true, decide_eq_true_eq, beq_iff_eq] at space
    simp only [spaceCodes, List.mem_cons, List.not_mem_nil, or_false]
    omega
  have here := List.all_eq_true.mp checked _ member
  rwa [Char.ofNat_toNat, beq_iff_eq] at here

theorem Rune.mapText_of_fixed {f : Char → Char} {text : Bytes}
    (fixed : ∀ r ∈ ofBytes text, ∃ c, r = .scalar c ∧ f c = c) : mapText f text = text := by
  conv_rhs => rw [← flatMap_toBytes_ofBytes text]
  apply List.flatMap_congr
  intro r member
  obtain ⟨c, rfl, same⟩ := fixed r member
  show String.utf8EncodeChar (f c) = String.utf8EncodeChar c
  rw [same]

namespace Bytes

theorem lower_of_isWhite {text : Bytes} (white : IsWhite text) : text.lower = text := by
  apply Rune.mapText_of_fixed
  intro r member
  have space := white r member
  cases r with
  | scalar c => exact ⟨c, rfl, Rune.lowerChar_of_isSpace space⟩
  | stray b => cases space

/-- A text that begins with an ASCII character reads on its own. -/
theorem lower_append {text : Bytes} (filled : text ≠ []) (ascii : ∀ b ∈ text, b < 0x80)
    (before after : Bytes) :
    lower (before ++ text ++ after) = before.lower ++ text.lower ++ after.lower := by
  obtain ⟨b, rest, rfl⟩ := List.exists_cons_of_ne_nil filled
  have read : Rune.ofBytes (before ++ b :: rest ++ after) =
      Rune.ofBytes before ++ Rune.ofBytes (b :: rest) ++ Rune.ofBytes after := by
    rw [List.append_assoc, List.cons_append,
      Rune.ofBytes_append_ascii before (ascii b List.mem_cons_self), ← List.cons_append,
      Rune.ofBytes_append_of_ascii ascii, List.append_assoc]
  unfold lower Rune.mapText
  rw [read, List.flatMap_append, List.flatMap_append]

end Bytes

namespace Register

open Bytes (IsWhite IsInk IsSolid isWhite_nil)

/-! ### Names -/

/-- All registers, in the order of register lists. -/
def all : List Register := (List.finRange 8).map .data ++ (List.finRange 8).map .address

theorem mem_all (r : Register) : r ∈ all := by
  cases r <;> simp [all]

/-- The names of a register, in small letters. -/
def names : Register → List Bytes
  | .data n => ['d'.toUInt8 :: Decimal.ofNat n]
  | .address n =>
    ('a'.toUInt8 :: Decimal.ofNat n) :: (if n.val = 7 then [Bytes.ofString "sp"] else [])

theorem names_checked {r : Register} {name : Bytes} (named : name ∈ r.names) :
    ofText name = .ok r ∧ name.lower = name ∧ name ≠ [] ∧ ∀ b ∈ name, IsInk b ∧ b ≠ '-'.toUInt8 := by
  have checked : (all.all fun r => r.names.all fun name =>
      decide (ofText name = .ok r ∧ name.lower = name ∧ name ≠ []) &&
        name.all fun b => decide (IsInk b ∧ b ≠ '-'.toUInt8)) = true := by decide +kernel
  have here := List.all_eq_true.mp (List.all_eq_true.mp checked r (mem_all r)) name named
  rw [Bool.and_eq_true, decide_eq_true_eq, List.all_eq_true] at here
  exact ⟨here.1.1, here.1.2.1, here.1.2.2, fun b member => of_decide_eq_true (here.2 b member)⟩

/-- The text is a name of the register, in letters of either case. -/
def Named (r : Register) (text : Bytes) : Prop := text.map Bytes.small ∈ r.names

namespace Named

variable {r : Register} {text : Bytes}

theorem ink (named : r.Named text) : ∀ b ∈ text, IsInk b ∧ b ≠ '-'.toUInt8 := by
  intro b member
  have blind := Bytes.apply_small (f := fun b => decide (IsInk b ∧ b ≠ '-'.toUInt8)) (by decide) b
  have here := (names_checked named).2.2.2 _ (List.mem_map_of_mem member)
  exact of_decide_eq_true (blind.symm.trans (decide_eq_true here))

theorem filled (named : r.Named text) : text ≠ [] := by
  have image := (names_checked named).2.2.1
  simpa using image

theorem isSolid (named : r.Named text) : IsSolid text :=
  Bytes.isSolid_of_ink named.filled fun b member => (named.ink b member).1

theorem lower_eq (named : r.Named text) : text.lower = text.map Bytes.small := by
  rw [← Bytes.lower_small]
  exact (names_checked named).2.1

theorem minus_not_mem (named : r.Named text) : '-'.toUInt8 ∉ text :=
  fun member => (named.ink _ member).2 rfl

end Named

/-- The text is a name of the register with white space around it. -/
def Spelled (r : Register) (text : Bytes) : Prop :=
  ∃ before name after, text = before ++ name ++ after ∧ IsWhite before ∧ r.Named name ∧ IsWhite after

theorem ofText_spelled {r : Register} {text : Bytes} (spelled : r.Spelled text) :
    ofText text = .ok r := by
  obtain ⟨before, name, after, rfl, white, named, white'⟩ := spelled
  obtain ⟨read, kept, filled, ink⟩ := names_checked named
  have solid : IsSolid (name.map Bytes.small) :=
    Bytes.isSolid_of_ink filled fun b member => (ink b member).1
  have same : (before ++ name ++ after).lower.trim =
      Bytes.trim (Bytes.lower (name.map Bytes.small)) := by
    have alone := Bytes.trim_white isWhite_nil solid isWhite_nil
    rw [List.nil_append, List.append_nil] at alone
    rw [Bytes.lower_append named.filled fun b member => (named.ink b member).1.2, named.lower_eq,
      Bytes.lower_of_isWhite white, Bytes.lower_of_isWhite white',
      Bytes.trim_white white solid white', kept, alone]
  rw [← read]
  unfold ofText
  rw [same]

/-! ### Ranges -/

/-- The registers from one to another, whichever of the two comes first. -/
def between (r s : Register) : List Register :=
  all.filter fun q => min r.index s.index ≤ q.index && q.index ≤ max r.index s.index

theorem between_comm (r s : Register) : between r s = between s r := by
  simp only [between, Nat.min_comm r.index, Nat.max_comm r.index]

theorem map_index_all : all.map index = List.Ico 0 16 := by decide

theorem index_lt (r : Register) : r.index < 16 := by
  have member := List.mem_map_of_mem (f := index) (mem_all r)
  rw [map_index_all, List.Ico.mem] at member
  exact member.2

theorem map_index_between (r s : Register) : (between r s).map index =
    List.Ico (min r.index s.index) (max r.index s.index + 1) := by
  have inside : (between r s).map index = ((List.Ico 0 16).filter (· < max r.index s.index + 1)).filter
      (min r.index s.index ≤ ·) := by
    rw [List.filter_filter, ← map_index_all, List.filter_map]
    simp only [between, Function.comp_def, Nat.lt_succ_iff]
  have bound : max r.index s.index + 1 ≤ 16 := Nat.max_lt.mpr ⟨r.index_lt, s.index_lt⟩
  rw [inside, List.Ico.filter_lt, List.Ico.filter_le, Nat.zero_max, Nat.min_eq_right bound]

theorem length_between (r s : Register) : (between r s).length = distance r s := by
  rw [← List.length_map (f := index), map_index_between, List.Ico.length]
  unfold distance
  omega

/-! ### Parts of lists -/

inductive Part where
  | blank
  | single (r : Register)
  | range (first last : Register)

namespace Part

/-- The registers that a part names. -/
def registers : Part → List Register
  | .blank => []
  | .single r => [r]
  | .range r s => between r s

/-- The texts that a part may be written as. -/
inductive Written : Part → Bytes → Prop where
  | blank {text : Bytes} (white : IsWhite text) : Written .blank text
  | single {r : Register} {text : Bytes} (spelled : r.Spelled text) : Written (.single r) text
  | range {r s : Register} {text text' : Bytes} (spelled : r.Spelled text)
      (spelled' : s.Spelled text') : Written (.range r s) (text ++ '-'.toUInt8 :: text')

/-- The same part, or a range from its other end. -/
inductive Turned : Part → Part → Prop where
  | kept (part : Part) : Turned part part
  | reversed (r s : Register) : Turned (.range r s) (.range s r)

theorem Turned.length_eq {part part' : Part} (turned : Turned part part') :
    part'.registers.length = part.registers.length := by
  cases turned with
  | kept => rfl
  | reversed r s => rw [registers, registers, between_comm]

theorem lengths_turned {parts parts' : List Part} (turned : List.Forall₂ Turned parts parts') :
    (parts'.map fun part => part.registers.length) = parts.map fun part => part.registers.length := by
  induction turned with
  | nil => rfl
  | cons here _ ih => rw [List.map_cons, List.map_cons, here.length_eq, ih]

end Part

theorem countPart_written {part : Part} {text : Bytes} (written : part.Written text) :
    countPart text = part.registers.length := by
  cases written with
  | blank white =>
    unfold countPart
    rw [Bytes.trim_of_isWhite white]
    rfl
  | single spelled =>
    obtain ⟨before, name, after, rfl, white, named, white'⟩ := spelled
    unfold countPart
    rw [Bytes.trim_white white named.isSolid white']
    split
    · exact absurd rfl named.filled
    · rw [Bytes.cut?_eq_none named.minus_not_mem]
      rfl
  | @range r s _ _ spelled spelled' =>
    obtain ⟨before, name, gap, rfl, white, named, inner⟩ := spelled
    obtain ⟨gap', name', after, rfl, inner', named', white'⟩ := spelled'
    have first : r.Spelled (name ++ gap) := ⟨[], name, gap, rfl, isWhite_nil, named, inner⟩
    have last : s.Spelled (gap' ++ name') :=
      ⟨gap', name', [], (List.append_nil _).symm, inner', named', isWhite_nil⟩
    -- Trimming leaves the text from the first name to the second.
    have whole : before ++ name ++ gap ++ '-'.toUInt8 :: (gap' ++ name' ++ after) =
        before ++ (name ++ (gap ++ '-'.toUInt8 :: gap') ++ name') ++ after := by simp
    have solid : IsSolid (name ++ (gap ++ '-'.toUInt8 :: gap') ++ name') :=
      named.isSolid.join _ named'.isSolid
    have absent : '-'.toUInt8 ∉ name ++ gap := by
      rw [List.mem_append, not_or]
      exact ⟨named.minus_not_mem, fun member => inner.not_isInk _ member (by decide)⟩
    have cut : Bytes.cut? '-'.toUInt8 (name ++ (gap ++ '-'.toUInt8 :: gap') ++ name') =
        some (name ++ gap, gap' ++ name') := by
      simpa using Bytes.cut?_append absent (gap' ++ name')
    unfold countPart
    rw [whole, Bytes.trim_white white solid white']
    split
    · rename_i nothing
      simp at nothing
    · rw [cut]
      simp only [ofText_spelled first, ofText_spelled last]
      exact (length_between r s).symm

/-! ### Lists -/

theorem countList_eq {list : Bytes} {parts : List Part}
    (written : List.Forall₂ Part.Written parts (list.split '/'.toUInt8)) :
    countList list = (parts.map fun part => part.registers.length).sum := by
  unfold countList
  generalize list.split '/'.toUInt8 = texts at written
  induction written with
  | nil => rfl
  | cons here _ ih =>
    rw [List.map_cons, List.foldr_cons, ih, List.map_cons, List.sum_cons, countPart_written here]

theorem countList_perm {list list' : Bytes}
    (perm : (list'.split '/'.toUInt8).Perm (list.split '/'.toUInt8)) :
    countList list' = countList list :=
  (perm.map countPart).sum_nat

theorem length_le_of_nodup {registers : List Register} (nodup : registers.Nodup) :
    registers.length ≤ 16 :=
  (List.subperm_of_subset nodup fun r _ => mem_all r).length_le

/-- A list counts the registers of its parts, each as often as it is named: not less than there are
different ones, and no more exactly if none is named twice. The order of the parts, the direction of
ranges and the case of letters do not matter. -/
theorem countList_written {list : Bytes} {parts : List Part}
    (written : List.Forall₂ Part.Written parts (list.split '/'.toUInt8)) :
    let named := parts.flatMap Part.registers
    countList list = (parts.map fun part => part.registers.length).sum ∧
      named.toFinset.card ≤ countList list ∧
      (named.toFinset.card = countList list ↔ named.Nodup) ∧
      (named.Nodup → countList list ≤ 16) ∧
      (∀ list' : Bytes, (list'.split '/'.toUInt8).Perm (list.split '/'.toUInt8) →
        countList list' = countList list) ∧
      (∀ (list' : Bytes) (parts' : List Part), List.Forall₂ Part.Turned parts parts' →
        List.Forall₂ Part.Written parts' (list'.split '/'.toUInt8) →
        countList list' = countList list) ∧
      ∀ list' : Bytes, list'.map Bytes.small = list.map Bytes.small →
        countList list' = countList list := by
  intro named
  have sum := countList_eq written
  have length : countList list = named.length := by rw [sum, List.length_flatMap]
  refine ⟨sum, ?_, ?_, ?_, fun _ => countList_perm, ?_, ?_⟩
  · rw [length]
    exact List.toFinset_card_le named
  · rw [length]
    exact Multiset.toFinset_card_eq_card_iff_nodup (m := (named : Multiset Register))
  · intro nodup
    rw [length]
    exact length_le_of_nodup nodup
  · intro list' parts' turned written'
    rw [countList_eq written', sum, Part.lengths_turned turned]
  · intro list' recased
    rw [← countList_small list', recased, countList_small]

/-- Two ranges that meet in a register with two names, a blank part and white space. -/
theorem countList_written_overlapping :
    let list := Bytes.ofString "D7-a1/\u2003SP //a7 - A5"
    let parts : List Part :=
      [.range (.data 7) (.address 1), .single stackPointer, .blank, .range (.address 7) (.address 5)]
    let turned := Bytes.ofString "d7-a1/sp//a5-a7"
    List.Forall₂ Part.Written parts (list.split '/'.toUInt8) ∧ countList list = 7 ∧
      (parts.flatMap Part.registers).toFinset.card = 6 ∧ ¬(parts.flatMap Part.registers).Nodup ∧
      countList (Bytes.ofString "a7 - A5//D7-a1/\u2003SP ") = 7 ∧
      countList (Bytes.ofString "d7-A1/\u2003sp //A7 - a5") = 7 ∧ countList turned = 7 := by
  intro list parts turned
  have alone {r : Register} {text : Bytes} (named : r.Named text) : r.Spelled text :=
    ⟨[], text, [], (List.append_nil _).symm, isWhite_nil, named, isWhite_nil⟩
  have white : IsWhite (Bytes.ofString "\u2003") := by decide +kernel
  have blank : IsWhite (Bytes.ofString " ") := by decide +kernel
  have written : List.Forall₂ Part.Written parts (list.split '/'.toUInt8) := by
    have cut : list.split '/'.toUInt8 = [Bytes.ofString "D7" ++ '-'.toUInt8 :: Bytes.ofString "a1",
        Bytes.ofString "\u2003" ++ Bytes.ofString "SP" ++ Bytes.ofString " ", [],
        Bytes.ofString "a7 " ++ '-'.toUInt8 :: Bytes.ofString " A5"] := by decide +kernel
    rw [cut]
    refine .cons (.range (alone ?_) (alone ?_)) (.cons (.single ⟨_, _, _, rfl, white, ?_, blank⟩)
      (.cons (.blank isWhite_nil) (.cons (.range
        ⟨[], Bytes.ofString "a7", Bytes.ofString " ", rfl, isWhite_nil, ?_, blank⟩
        ⟨Bytes.ofString " ", Bytes.ofString "A5", [], rfl, blank, ?_, isWhite_nil⟩) .nil)))
    all_goals
      unfold Named
      decide +kernel
  have written' : List.Forall₂ Part.Written
      [.range (.data 7) (.address 1), .single stackPointer, .blank,
        .range (.address 5) (.address 7)] (turned.split '/'.toUInt8) := by
    have cut : turned.split '/'.toUInt8 =
        [Bytes.ofString "d7" ++ '-'.toUInt8 :: Bytes.ofString "a1", Bytes.ofString "sp", [],
          Bytes.ofString "a5" ++ '-'.toUInt8 :: Bytes.ofString "a7"] := by decide +kernel
    rw [cut]
    refine .cons (.range (alone ?_) (alone ?_)) (.cons (.single (alone ?_))
      (.cons (.blank isWhite_nil) (.cons (.range (alone ?_) (alone ?_)) .nil)))
    all_goals
      unfold Named
      decide +kernel
  obtain ⟨sum, -, exact_iff, -, permuted, reversed, recased⟩ := countList_written written
  have count : countList list = 7 := sum.trans (by decide +kernel)
  have card : (parts.flatMap Part.registers).toFinset.card = 6 := by decide +kernel
  refine ⟨written, count, card, fun nodup => ?_, (permuted _ ?_).trans count,
    (recased _ (by decide +kernel)).trans count, (reversed turned _ ?_ written').trans count⟩
  · have same := exact_iff.mpr nodup
    omega
  · decide +kernel
  · exact .cons (.kept _) (.cons (.kept _) (.cons (.kept _) (.cons (.reversed _ _) .nil)))

end Register

end Asm68k
