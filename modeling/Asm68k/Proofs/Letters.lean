import Mathlib.Data.List.Find
import Asm68k.Register
import Asm68k.Mode.Operand
import Asm68k.Size
import Asm68k.Proofs.Rune

/-!
Capital and small letters. A text with its capital letters made small has the same runes but for
these letters, so patterns that take letters in either case fit it in the same places.
-/

namespace Asm68k

/-! ### Bytes -/

namespace Bytes

/-- The small letter of a capital letter; any other byte stays. -/
def small (b : UInt8) : UInt8 := if 'A'.toUInt8 ≤ b ∧ b ≤ 'Z'.toUInt8 then b + 0x20 else b

def isLetter (b : UInt8) : Bool :=
  'A'.toUInt8 ≤ b && b ≤ 'Z'.toUInt8 || 'a'.toUInt8 ≤ b && b ≤ 'z'.toUInt8

theorem small_of_not_capital {b : UInt8} (other : ¬ (0x41 ≤ b.toNat ∧ b.toNat ≤ 0x5A)) :
    small b = b := by
  unfold small
  rw [if_neg]
  exact fun capital => other (capital.imp UInt8.le_iff_toNat_le.mp UInt8.le_iff_toNat_le.mp)

theorem small_capital : ∀ i < 26, small (UInt8.ofNat (0x41 + i)) = UInt8.ofNat (0x61 + i) := by
  decide

/-- What does not tell the capital letters from the small ones does not tell a byte from its small
letter. -/
theorem apply_small {α : Type} {f : UInt8 → α}
    (blind : ∀ i < 26, f (UInt8.ofNat (0x61 + i)) = f (UInt8.ofNat (0x41 + i))) (b : UInt8) :
    f (small b) = f b := by
  by_cases capital : 0x41 ≤ b.toNat ∧ b.toNat ≤ 0x5A
  · obtain ⟨i, letter, same⟩ : ∃ i < 26, b.toNat = 0x41 + i :=
      ⟨b.toNat - 0x41, by omega, by omega⟩
    obtain rfl : b = UInt8.ofNat (0x41 + i) := by rw [← same, UInt8.ofNat_toNat]
    rw [small_capital i letter, blind i letter]
  · rw [small_of_not_capital capital]

theorem isLetter_small (b : UInt8) : isLetter (small b) = isLetter b :=
  apply_small (by decide) b

theorem isDigit_small (b : UInt8) : isDigit (small b) = isDigit b :=
  apply_small (by decide) b

theorem small_of_not_letter {b : UInt8} (other : isLetter b = false) : small b = b := by
  unfold small
  rw [if_neg]
  intro capital
  simp [isLetter, capital] at other

theorem small_of_isDigit {b : UInt8} (decimal : isDigit b = true) : small b = b := by
  simp only [isDigit, Bool.and_eq_true, decide_eq_true_eq] at decimal
  apply small_of_not_capital
  have most : b.toNat ≤ 0x39 := UInt8.le_iff_toNat_le.mp decimal.2
  omega

theorem small_beq {mark : UInt8} (plain : isLetter mark = false) (b : UInt8) :
    (small b == mark) = (b == mark) := by
  cases letter : isLetter b with
  | false => rw [small_of_not_letter letter]
  | true =>
    have other {b : UInt8} (letter : isLetter b = true) : (b == mark) = false := by
      rw [beq_eq_false_iff_ne]
      rintro rfl
      rw [letter] at plain
      cases plain
    rw [other letter, other ((isLetter_small b).trans letter)]

theorem map_small_beq {marks : Bytes} (plain : ∀ b ∈ marks, isLetter b = false) (text : Bytes) :
    (text.map small == marks) = (text == marks) := by
  induction marks generalizing text with
  | nil => cases text <;> rfl
  | cons mark marks ih =>
    obtain ⟨here, later⟩ := List.forall_mem_cons.mp plain
    cases text with
    | nil => rfl
    | cons b rest =>
      rw [List.map_cons, List.cons_beq_cons, List.cons_beq_cons, small_beq here, ih later]

theorem isPrefixOf_small {old : Bytes} (plain : ∀ b ∈ old, isLetter b = false) (text : Bytes) :
    old.isPrefixOf (text.map small) = old.isPrefixOf text := by
  induction old generalizing text with
  | nil => rfl
  | cons mark old ih =>
    obtain ⟨here, later⟩ := List.forall_mem_cons.mp plain
    cases text with
    | nil => rfl
    | cons b rest =>
      rw [List.map_cons, List.isPrefixOf, List.isPrefixOf, ih later, Bool.beq_comm, small_beq here,
        Bool.beq_comm]

theorem replaceAll_small {old new : Bytes} (plain : ∀ b ∈ old, isLetter b = false)
    (kept : new.map small = new) (text : Bytes) :
    replaceAll (text.map small) old new = (text.replaceAll old new).map small := by
  have each (skip : Nat) : replaceAll.go old new skip (text.map small) =
      (replaceAll.go old new skip text).map small := by
    induction text generalizing skip with
    | nil => cases skip <;> rfl
    | cons b rest ih =>
      cases skip with
      | succ skip => exact ih skip
      | zero =>
        have found := isPrefixOf_small plain (b :: rest)
        rw [List.map_cons] at found ⊢
        rw [replaceAll.go, replaceAll.go, found]
        split
        · rw [ih, List.map_append, kept]
        · rw [ih, List.map_cons]
  exact each 0

end Bytes

/-! ### Runes -/

namespace Rune

/-- The rune with a capital letter made small. -/
def small : Rune → Rune
  | .scalar c => .scalar c.toLower
  | .stray b => .stray (Bytes.small b)

theorem toLower_of_not_capital {c : Char} (other : ¬ (0x41 ≤ c.toNat ∧ c.toNat ≤ 0x5A)) :
    c.toLower = c := by
  unfold Char.toLower
  rw [dif_neg]
  exact fun capital => other (capital.imp UInt32.le_iff_toNat_le.mp UInt32.le_iff_toNat_le.mp)

theorem toLower_capital : ∀ i < 26, (Char.ofNat (0x41 + i)).toLower = Char.ofNat (0x61 + i) := by
  decide

theorem apply_toLower {α : Type} {f : Char → α}
    (blind : ∀ i < 26, f (Char.ofNat (0x61 + i)) = f (Char.ofNat (0x41 + i))) (c : Char) :
    f c.toLower = f c := by
  by_cases capital : 0x41 ≤ c.toNat ∧ c.toNat ≤ 0x5A
  · obtain ⟨i, letter, same⟩ : ∃ i < 26, c.toNat = 0x41 + i :=
      ⟨c.toNat - 0x41, by omega, by omega⟩
    rw [← Char.ofNat_toNat c, same, toLower_capital i letter, blind i letter]
  · rw [toLower_of_not_capital capital]

/-- The test gives one answer for a small letter and its capital. -/
def isBlind (accepts : Rune → Bool) : Bool :=
  (List.range 26).all fun i =>
    accepts (.scalar (Char.ofNat (0x61 + i))) == accepts (.scalar (Char.ofNat (0x41 + i))) &&
      accepts (.stray (UInt8.ofNat (0x61 + i))) == accepts (.stray (UInt8.ofNat (0x41 + i)))

theorem accepts_small {accepts : Rune → Bool} (blind : isBlind accepts = true) (r : Rune) :
    accepts r.small = accepts r := by
  have each (i : Nat) (letter : i < 26) :=
    Bool.and_eq_true_iff.mp (List.all_eq_true.mp blind i (List.mem_range.mpr letter))
  cases r with
  | scalar c =>
    exact apply_toLower (f := fun c => accepts (.scalar c))
      (fun i letter => eq_of_beq (each i letter).1) c
  | stray b =>
    exact Bytes.apply_small (f := fun b => accepts (.stray b))
      (fun i letter => eq_of_beq (each i letter).2) b

theorem utf8EncodeChar_toLower (c : Char) :
    String.utf8EncodeChar c.toLower = (String.utf8EncodeChar c).map Bytes.small := by
  have ascii : ∀ n < 0x80, String.utf8EncodeChar (Char.ofNat n).toLower =
      (String.utf8EncodeChar (Char.ofNat n)).map Bytes.small := by decide +kernel
  by_cases low : c.toNat < 0x80
  · have here := ascii c.toNat low
    rwa [Char.ofNat_toNat] at here
  · have kept : ∀ b ∈ String.utf8EncodeChar c, Bytes.small b = b := by
      intro b member
      have high := high_of_mem_encode (Nat.not_lt.mp low) b member
      exact Bytes.small_of_not_capital (by omega)
    rw [toLower_of_not_capital (by omega), List.map_congr_left kept, List.map_id']

theorem toBytes_small (r : Rune) : r.small.toBytes = r.toBytes.map Bytes.small := by
  cases r with
  | scalar c => exact utf8EncodeChar_toLower c
  | stray b => rfl

theorem continuation?_small (b : UInt8) : continuation? (Bytes.small b) = continuation? b :=
  Bytes.apply_small (by decide) b

theorem scalarAt?_map_small (lead : UInt8) (rest : Bytes) :
    scalarAt? lead (rest.map Bytes.small) = scalarAt? lead rest := by
  unfold scalarAt?
  match rest with
  | [] => rfl
  | [b] => simp [continuation?_small]
  | [b, b'] => simp [continuation?_small]
  | b :: b' :: b'' :: rest => simp [continuation?_small]

theorem scalarAt?_small (lead : UInt8) (rest : Bytes) :
    scalarAt? (Bytes.small lead) (rest.map Bytes.small) =
      (scalarAt? lead rest).map fun (c, length) => (c.toLower, length) := by
  rw [scalarAt?_map_small]
  by_cases low : lead < 0x80
  · have checked := Bytes.forall_byte (p := fun b => !decide (b < 0x80) ||
      decide (Bytes.small b < 0x80 ∧
        Char.ofNat (Bytes.small b).toNat = (Char.ofNat b.toNat).toLower)) (by decide +kernel) lead
    rw [decide_eq_true low, Bool.not_true, Bool.false_or, decide_eq_true_eq] at checked
    obtain ⟨c, value, read⟩ := scalarAt?_ascii low rest
    obtain ⟨d, value', read'⟩ := scalarAt?_ascii checked.1 rest
    have letter := checked.2
    rw [← value, ← value', Char.ofNat_toNat, Char.ofNat_toNat] at letter
    rw [read, read', letter]
    rfl
  · rw [UInt8.lt_iff_toNat_lt, Nat.not_lt] at low
    have high : 0x80 ≤ lead.toNat := low
    rw [Bytes.small_of_not_capital (by omega)]
    cases read : scalarAt? lead rest with
    | none => rfl
    | some scalar =>
      obtain ⟨c, length⟩ := scalar
      have encoded := (scalarAt?_encode read).2
      have above : 0x80 ≤ c.toNat := by
        refine Nat.not_lt.mp fun below => ?_
        unfold String.utf8EncodeChar at encoded
        dsimp only at encoded
        have value : c.val.toNat = c.toNat := rfl
        rw [value, if_pos (by omega)] at encoded
        have same : UInt8.ofNat c.toNat = lead := List.head_eq_of_cons_eq encoded
        rw [← same, UInt8.toNat_ofNat', Nat.mod_eq_of_lt (by omega)] at high
        omega
      have kept : c.toLower = c := toLower_of_not_capital (by omega)
      simp only [Option.map_some, kept]

theorem ofBytes_small (text : Bytes) :
    ofBytes (text.map Bytes.small) = (ofBytes text).map small := by
  have each (skip : Nat) :
      ofBytes.go skip (text.map Bytes.small) = (ofBytes.go skip text).map small := by
    induction text generalizing skip with
    | nil => cases skip <;> rfl
    | cons b rest ih =>
      cases skip with
      | succ skip => exact ih skip
      | zero =>
        rw [List.map_cons, ofBytes.go, ofBytes.go, scalarAt?_small]
        cases scalarAt? b rest with
        | none => simp only [Option.map_none, List.map_cons, ih, small]
        | some scalar => simp only [Option.map_some, List.map_cons, ih, small]
  exact each 0

end Rune

/-! ### Texts -/

namespace Bytes

open Rune

theorem mapText_small {f : Char → Char}
    (blind : ∀ i < 26, f (Char.ofNat (0x61 + i)) = f (Char.ofNat (0x41 + i))) (text : Bytes) :
    mapText f (text.map small) = mapText f text := by
  unfold mapText
  rw [ofBytes_small, List.flatMap_map]
  congr 1
  funext r
  cases r with
  | scalar c => simp only [Rune.small, apply_toLower blind c]
  | stray b => rfl

theorem upper_small (text : Bytes) : upper (text.map small) = text.upper :=
  mapText_small (by decide) text

theorem lower_small (text : Bytes) : lower (text.map small) = text.lower :=
  mapText_small (by decide) text

theorem trim_small (text : Bytes) : trim (text.map small) = text.trim.map small := by
  have space : isSpace ∘ Rune.small = isSpace :=
    funext (accepts_small (by decide))
  unfold trim
  dsimp only
  rw [ofBytes_small, List.dropWhile_map, space, ← List.map_reverse, List.dropWhile_map, space,
    ← List.map_reverse, List.flatMap_map, List.map_flatMap]
  congr 1
  exact funext toBytes_small

theorem cut?_small {mark : UInt8} (plain : isLetter mark = false) (text : Bytes) :
    cut? mark (text.map small) = (text.cut? mark).map fun (before, after) =>
      (before.map small, after.map small) := by
  have other : (· != mark) ∘ small = (· != mark) :=
    funext fun b => congrArg not (small_beq plain b)
  unfold cut?
  rw [List.dropWhile_map, List.takeWhile_map, other]
  cases text.dropWhile (· != mark) <;> rfl

theorem split_small {mark : UInt8} (plain : isLetter mark = false) (text : Bytes) :
    split mark (text.map small) = (text.split mark).map (List.map small) := by
  have parts : (text.map small).foldr (split.add mark) ([], []) =
      ((text.foldr (split.add mark) ([], [])).1.map small,
        (text.foldr (split.add mark) ([], [])).2.map (List.map small)) := by
    induction text with
    | nil => rfl
    | cons b rest ih =>
      rw [List.map_cons, List.foldr_cons, List.foldr_cons, ih, split.add, split.add,
        small_beq plain]
      split <;> rfl
  unfold split
  rw [parts]
  rfl

end Bytes

/-! ### Registers and modes -/

namespace Register

theorem ofText_small (text : Bytes) : ofText (text.map Bytes.small) = ofText text := by
  unfold ofText
  rw [Bytes.lower_small]

theorem countPart_small (part : Bytes) : countPart (part.map Bytes.small) = countPart part := by
  unfold countPart
  rw [Bytes.trim_small]
  generalize part.trim = part
  cases part with
  | nil => rfl
  | cons b rest =>
    have plain : Bytes.isLetter '-'.toUInt8 = false := by decide
    have cut := Bytes.cut?_small plain (b :: rest)
    simp only [List.map_cons] at cut ⊢
    rw [cut]
    cases Bytes.cut? '-'.toUInt8 (b :: rest) with
    | none => rfl
    | some ends => simp only [Option.map_some, ofText_small]

theorem countList_small (list : Bytes) : countList (list.map Bytes.small) = countList list := by
  unfold countList
  rw [Bytes.split_small (by decide), List.map_map]
  congr 2
  exact funext countPart_small

end Register

namespace Pattern

/-- The pattern takes letters in either case. -/
def isBlind : Pattern → Bool
  | .nothing => true
  | .one accepts | .many accepts => Rune.isBlind accepts
  | .seq p q | .alt p q => p.isBlind && q.isBlind

theorem afterRun_small {accepts : Rune → Bool} (blind : Rune.isBlind accepts = true)
    (text : List Rune) :
    afterRun accepts (text.map Rune.small) = (afterRun accepts text).map (List.map Rune.small) := by
  induction text with
  | nil => rfl
  | cons r rest ih =>
    rw [List.map_cons, afterRun, afterRun, Rune.accepts_small blind, ih]
    split <;> rfl

theorem remainders_small {p : Pattern} (blind : p.isBlind = true) (text : List Rune) :
    p.remainders (text.map Rune.small) = (p.remainders text).map (List.map Rune.small) := by
  induction p generalizing text with
  | nothing => rfl
  | one accepts =>
    cases text with
    | nil => rfl
    | cons r rest =>
      rw [List.map_cons, remainders, remainders, Rune.accepts_small blind]
      split <;> rfl
  | many accepts => exact afterRun_small blind text
  | seq p q ihp ihq =>
    obtain ⟨first, second⟩ := Bool.and_eq_true_iff.mp blind
    rw [remainders, remainders, ihp first, List.flatMap_map, List.map_flatMap]
    congr 1
    exact funext (ihq second)
  | alt p q ihp ihq =>
    obtain ⟨first, second⟩ := Bool.and_eq_true_iff.mp blind
    rw [remainders, remainders, ihp first, ihq second, List.map_append]

theorem anyTail_small {test : List Rune → Bool}
    (blind : ∀ text : List Rune, test (text.map Rune.small) = test text) (text : List Rune) :
    anyTail test (text.map Rune.small) = anyTail test text := by
  induction text with
  | nil => exact blind []
  | cons r rest ih => rw [List.map_cons, anyTail, anyTail, ih, ← List.map_cons, blind]

section

variable {p : Pattern} (blind : p.isBlind = true)
include blind

theorem fitsFront_small (text : List Rune) :
    p.fitsFront (text.map Rune.small) = p.fitsFront text := by
  rw [fitsFront, fitsFront, remainders_small blind, List.isEmpty_map]

theorem fitsWhole_small (text : List Rune) :
    p.fitsWhole (text.map Rune.small) = p.fitsWhole text := by
  rw [fitsWhole, fitsWhole, remainders_small blind]
  generalize p.remainders text = remainders
  induction remainders with
  | nil => rfl
  | cons rest remainders ih =>
    rw [List.map_cons, List.contains_cons, List.contains_cons, ih]
    cases rest <;> rfl

theorem fits_small (placement : Mode.Placement) (text : List Rune) :
    Mode.Form.fits ⟨placement, p⟩ (text.map Rune.small) = Mode.Form.fits ⟨placement, p⟩ text := by
  cases placement with
  | whole => exact fitsWhole_small blind text
  | front => exact fitsFront_small blind text
  | back => exact anyTail_small (fitsWhole_small blind) text
  | anywhere => exact anyTail_small (fitsFront_small blind) text

end

end Pattern

/-- All forms of operands take letters in either case. -/
theorem Mode.isBlind_forms : ∀ form ∈ forms, form.2.pattern.isBlind = true := by
  decide +kernel

theorem Mode.ofOperand_small (text : Bytes) :
    ofOperand (text.map Bytes.small) = ofOperand text := by
  have same : forms.find? (·.2.fits ((Rune.ofBytes text).map Rune.small)) =
      forms.find? (·.2.fits (Rune.ofBytes text)) :=
    List.find?_congr fun form listed => Pattern.fits_small (isBlind_forms form listed) _ _
  unfold ofOperand
  dsimp only
  rw [Rune.ofBytes_small, same]

end Asm68k
