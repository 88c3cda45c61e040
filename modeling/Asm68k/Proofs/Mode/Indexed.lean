import Asm68k.Proofs.Expression.Rendering
import Asm68k.Proofs.Mode.Forms
import Asm68k.Proofs.Mode.Names

/-!
Operands with an index register. The base register decides their class, but for one case: the
program counter with an address register as index, of which no size is given, reads as if the
counter were a displacement.
-/

namespace Asm68k.Mode

open Pattern

/-! ### The base and its index -/

/-- What stands in parentheses: the base, a comma and the index, with the closing parenthesis. -/
structure Tail (base : Base) where
  gap₁ : List Rune
  name : List Rune
  gap₂ : List Rune
  gap₃ : List Rune
  register : List Rune
  gap₄ : List Rune
  blank₁ : Blank gap₁
  named : base.pattern.Describes name
  blank₂ : Blank gap₂
  blank₃ : Blank gap₃
  registered : index.Describes register
  blank₄ : Blank gap₄

namespace Tail

variable {base : Base} (t : Tail base)

def left : List Rune := t.gap₁ ++ (t.name ++ t.gap₂)

def right : List Rune := t.gap₃ ++ (t.register ++ (t.gap₄ ++ [.scalar ')']))

def runes : List Rune := t.left ++ .scalar ',' :: t.right

theorem describes_left : (seq blanks (seq base.pattern blanks)).Describes t.left :=
  .seq (.many t.blank₁) (.seq t.named (.many t.blank₂))

theorem describes_right : (seq blanks (seq index closing)).Describes t.right :=
  describes_closed t.blank₃ t.blank₄ t.registered

theorem comma_notMem_left : .scalar ',' ∉ t.left :=
  t.describes_left.not_mem (by cases base <;> decide)

theorem comma_notMem_right : .scalar ',' ∉ t.right := t.describes_right.not_mem (by decide)

theorem opening_notMem : .scalar '(' ∉ t.runes := by
  have left : .scalar '(' ∉ t.left := t.describes_left.not_mem (by cases base <;> decide)
  have right : .scalar '(' ∉ t.right := t.describes_right.not_mem (by decide)
  simp [runes, left, right]

theorem comma_mem : .scalar ',' ∈ t.runes := by simp [runes]

theorem indexes (front : List Rune) : base.indexes (front ++ t.runes) = true := by
  refine occursIn_comma_iff.mpr ⟨front ++ t.left, t.right, by simp [runes], ?_, ?_⟩
  · exact endsIn_iff.mpr ⟨front ++ t.gap₁, t.name ++ t.gap₂, .seq t.named (.many t.blank₂),
      by simp [left]⟩
  · exact fitsFront_iff.mpr ⟨t.right, [], t.describes_right, by simp⟩

end Tail

/-! ### The program counter -/

theorem cut_append {front rest before after : List Rune} {r : Rune}
    (same : front ++ rest = before ++ r :: after) :
    (∃ u, front = before ++ r :: u ∧ after = u ++ rest) ∨
      ∃ u, before = front ++ u ∧ rest = u ++ r :: after := by
  rcases List.append_eq_append_iff.mp same with ⟨u, rfl, rfl⟩ | ⟨u, rfl, tail⟩
  · exact .inr ⟨u, rfl, rfl⟩
  · cases u with
    | nil => exact .inr ⟨[], by simp, tail.symm⟩
    | cons x u =>
      obtain ⟨rfl, rfl⟩ := List.cons.inj tail
      exact .inl ⟨u, rfl, rfl⟩

namespace Tail

variable (t : Tail .counter) {front : List Rune}

theorem not_fitsFront {q : Pattern} (solid : isSolid q = true)
    (other : q.mayBegin (.scalar 'p') = false ∧ q.mayBegin (.scalar 'P') = false) :
    ¬(seq blanks q).fitsFront t.runes = true := by
  have whole : t.runes = t.gap₁ ++ (t.name ++ (t.gap₂ ++ .scalar ',' :: t.right)) := by
    simp [runes, left]
  rw [whole]
  exact counter_not_fitsFront solid other t.blank₁ t.named _

/-- An address register with an index can only stand before the counter. -/
theorem exists_comma_of_indexes (h : Base.address.indexes (front ++ t.runes) = true) :
    ∃ before after, front = before ++ .scalar ',' :: after ∧
      (seq blanks (seq index closing)).fitsFront (after ++ t.runes) = true := by
  obtain ⟨before, after, same, ends, fits⟩ := occursIn_comma_iff.mp h
  rcases cut_append same with ⟨u, rfl, rfl⟩ | ⟨u, rfl, rest⟩
  · exact ⟨before, u, rfl, fits⟩
  · obtain ⟨rfl, -, -⟩ := (List.append_cons_inj_of_notMem t.comma_notMem_left
      t.comma_notMem_right).mp rest
    obtain ⟨r, r', name, -, second⟩ := describes_counter t.named
    have last : front ++ t.left = (front ++ (t.gap₁ ++ [r])) ++ r' :: t.gap₂ := by
      simp [left, name]
    rw [last] at ends
    have solid : isSolid Base.address.pattern = true := Base.address.isSolid_pattern
    rcases second with rfl | rfl
    all_goals exact absurd (mayEnd_of_endsIn solid t.blank₂ rfl ends) (by decide)

/-- The index reads as a base if it is an address register without a size. -/
theorem address_pairs (fresh : .scalar '(' ∉ front) :
    Base.address.pairs (front ++ .scalar '(' :: t.runes) = addressRegister.fitsWhole t.register := by
  rw [Bool.eq_iff_iff, Base.address.pairs_iff fresh t.opening_notMem, fitsWhole_iff]
  have closed := describes_closed_iff Base.address.isSolid_pattern t.blank₃ t.blank₄
    (solid_of_describes (by decide) t.registered)
  constructor
  · rintro ⟨before, after, -, ha, same⟩
    obtain ⟨-, -, rfl⟩ := (List.append_cons_inj_of_notMem t.comma_notMem_left
      t.comma_notMem_right).mp same
    exact closed.mp ha
  · intro h
    refine ⟨t.left, t.right, ?_, closed.mpr h, rfl⟩
    obtain ⟨r, r', name, first, second⟩ := describes_counter t.named
    have word : displacement.Describes t.name := by
      rw [name]
      apply fitsWhole_iff.mp
      rcases first with rfl | rfl <;> rcases second with rfl | rfl <;> decide
    exact .seq (.many t.blank₁) (.seq word (.many t.blank₂))

end Tail

/-! ### Modes -/

section

variable {base : Base} {d : List Rune}

theorem firstOf_before (t : Tail base) (opening : .scalar '(' ∉ d) (comma : .scalar ',' ∉ d) :
    firstOf forms (d ++ .scalar '(' :: t.runes) =
      if base = .counter ∧ addressRegister.fitsWhole t.register = true then .displaced
      else base.indexedMode := by
  have split : d ++ .scalar '(' :: t.runes = (d ++ [.scalar '(']) ++ t.runes := by simp
  have own : base.indexes (d ++ .scalar '(' :: t.runes) = true := split ▸ t.indexes _
  rw [firstOf_comma (by simp [t.comma_mem]), Base.firstOf_forms]
  cases base with
  | address =>
    rw [if_pos own, if_neg (by simp)]
  | counter =>
    have indexes : ¬Base.address.indexes (d ++ .scalar '(' :: t.runes) = true := by
      rw [split]
      intro h
      obtain ⟨before, after, same, -⟩ := t.exists_comma_of_indexes h
      have member : .scalar ',' ∈ d ++ [.scalar '('] := by simp [same]
      simp [comma] at member
    have follows : ¬Base.address.follows (d ++ .scalar '(' :: t.runes) = true := by
      rw [Base.address.follows_iff opening t.opening_notMem]
      exact fun h => t.not_fitsFront (by decide) (by decide) h.2
    rw [if_neg indexes, if_neg follows, Base.firstOf_forms, if_pos own]
    simp only [t.address_pairs opening, true_and]
    rfl

theorem firstOf_within (t : Tail base) (opening : .scalar '(' ∉ d) (comma : .scalar ',' ∉ d) :
    firstOf forms (.scalar '(' :: (d ++ .scalar ',' :: t.runes)) = base.indexedMode := by
  have split : .scalar '(' :: (d ++ .scalar ',' :: t.runes) =
      (.scalar '(' :: (d ++ [.scalar ','])) ++ t.runes := by simp
  have own : base.indexes (.scalar '(' :: (d ++ .scalar ',' :: t.runes)) = true :=
    split ▸ t.indexes _
  rw [firstOf_comma (by simp), Base.firstOf_forms]
  cases base with
  | address => rw [if_pos own]
  | counter =>
    have opened : .scalar '(' ∉ d ++ .scalar ',' :: t.runes := by simp [opening, t.opening_notMem]
    have indexes : ¬Base.address.indexes (.scalar '(' :: (d ++ .scalar ',' :: t.runes)) = true := by
      rw [split]
      intro h
      obtain ⟨before, after, same, fits⟩ := t.exists_comma_of_indexes h
      have first : (.scalar '(' :: d) ++ .scalar ',' :: [] = before ++ .scalar ',' :: after := by
        simpa using same
      obtain ⟨-, -, rfl⟩ := (List.append_cons_inj_of_notMem (by simp [comma]) (by simp)).mp first
      exact t.not_fitsFront (by decide) (by decide) fits
    have follows : ¬Base.address.follows (.scalar '(' :: (d ++ .scalar ',' :: t.runes)) = true :=
      Base.address.not_follows_first opened
    have pairs : ¬Base.address.pairs (.scalar '(' :: (d ++ .scalar ',' :: t.runes)) = true := by
      rw [← List.nil_append (_ :: _), Base.address.pairs_iff (by simp) opened]
      rintro ⟨before, after, hb, ha, same⟩
      obtain ⟨-, -, rfl⟩ := (List.append_cons_inj_of_notMem (hb.not_mem (by decide))
        (ha.not_mem (by decide))).mp same.symm
      exact ha.not_mem (by decide) t.comma_mem
    rw [if_neg indexes, if_neg follows, if_neg pairs, Base.firstOf_forms, if_pos own]

end

/-! ### As bytes -/

theorem blank_ofBytes {gap : Bytes} (blank : Expression.Gap gap) : Blank (Rune.ofBytes gap) := by
  induction gap with
  | nil => exact List.forall_mem_nil _
  | cons b gap ih =>
    obtain ⟨here, others⟩ := List.forall_mem_cons.mp blank
    rcases here with rfl | rfl
    all_goals
      rw [Rune.ofBytes_char (by decide) (by decide)]
      exact List.forall_mem_cons.mpr ⟨rfl, ih others⟩

theorem ofBytes_gap {gap : Bytes} (blank : Expression.Gap gap) (rest : Bytes) :
    Rune.ofBytes (gap ++ rest) = Rune.ofBytes gap ++ Rune.ofBytes rest :=
  Rune.ofBytes_append_of_ascii (fun b member => (blank b member).ascii) rest

/-- A base register with an index register, a size for it or none, and blanks. -/
structure Indexing where
  base : Base
  name : Bytes
  named : name ∈ base.names
  register : Bytes
  isRegister : register ∈ registerNames
  size : Bytes
  isSize : size ∈ sizeSuffixes
  gaps : Fin 4 → Bytes
  blank : ∀ i, Expression.Gap (gaps i)

namespace Indexing

def text (i : Indexing) : Bytes :=
  i.gaps 0 ++ (i.name ++ (i.gaps 1 ++ ','.toUInt8 :: (i.gaps 2 ++
    ((i.register ++ i.size) ++ (i.gaps 3 ++ [')'.toUInt8])))))

theorem register_checked (i : Indexing) :
    (i.register ++ i.size).all (· < 0x80) = true ∧
      index.fitsWhole (Rune.ofBytes (i.register ++ i.size)) = true ∧
      addressRegister.fitsWhole (Rune.ofBytes (i.register ++ i.size)) =
        decide (i.register ∈ addressNames ∧ i.size = []) := by
  have checked : registerNames.all (fun register => sizeSuffixes.all fun size =>
      (register ++ size).all (· < 0x80) &&
        index.fitsWhole (Rune.ofBytes (register ++ size)) &&
        (addressRegister.fitsWhole (Rune.ofBytes (register ++ size)) ==
          decide (register ∈ addressNames ∧ size = []))) = true := by
    decide +kernel
  have here := List.all_eq_true.mp (List.all_eq_true.mp checked _ i.isRegister) _ i.isSize
  simpa only [Bool.and_eq_true, beq_iff_eq, and_assoc] using here

def tail (i : Indexing) : Tail i.base where
  gap₁ := Rune.ofBytes (i.gaps 0)
  name := Rune.ofBytes i.name
  gap₂ := Rune.ofBytes (i.gaps 1)
  gap₃ := Rune.ofBytes (i.gaps 2)
  register := Rune.ofBytes (i.register ++ i.size)
  gap₄ := Rune.ofBytes (i.gaps 3)
  blank₁ := blank_ofBytes (i.blank 0)
  named := i.base.lists.describes i.name i.named
  blank₂ := blank_ofBytes (i.blank 1)
  blank₃ := blank_ofBytes (i.blank 2)
  registered := fitsWhole_iff.mp i.register_checked.2.1
  blank₄ := blank_ofBytes (i.blank 3)

theorem ofBytes_text (i : Indexing) : Rune.ofBytes i.text = i.tail.runes := by
  have name := lt_of_mem_reservedNames (Base.mem_reservedNames i.named)
  have register : ∀ b ∈ i.register ++ i.size, b < 0x80 := fun b member =>
    of_decide_eq_true (List.all_eq_true.mp i.register_checked.1 b member)
  rw [text, ofBytes_gap (i.blank 0), Rune.ofBytes_append_of_ascii name, ofBytes_gap (i.blank 1),
    Rune.ofBytes_char (by decide) (by decide), ofBytes_gap (i.blank 2),
    Rune.ofBytes_append_of_ascii register, ofBytes_gap (i.blank 3)]
  simp only [Tail.runes, Tail.left, Tail.right, tail, List.append_assoc]
  rfl

end Indexing

/-- The base decides the class of an indexed operand, whether the displacement stands before the
parentheses or in them. The exception is an address register as index of the counter: if it has no
size, and the displacement stands before the parentheses, it is taken for the base. -/
theorem ofOperand_indexing (i : Indexing) {d : Bytes} (opening : '('.toUInt8 ∉ d)
    (comma : ','.toUInt8 ∉ d) :
    ofOperand (d ++ '('.toUInt8 :: i.text) =
      (if i.base = .counter ∧ i.register ∈ addressNames ∧ i.size = [] then .displaced
      else i.base.indexedMode) ∧
    ofOperand ('('.toUInt8 :: (d ++ ','.toUInt8 :: i.text)) = i.base.indexedMode := by
  have opening := scalar_notMem_ofBytes opening (by decide)
  have comma := scalar_notMem_ofBytes comma (by decide)
  constructor
  · rw [ofOperand_eq, Rune.ofBytes_append_ascii d (by decide),
      Rune.ofBytes_char (by decide) (by decide), i.ofBytes_text, firstOf_before i.tail opening comma]
    simp only [Indexing.tail, i.register_checked.2.2, decide_eq_true_eq]
  · rw [ofOperand_eq, Rune.ofBytes_char (by decide) (by decide),
      Rune.ofBytes_append_ascii d (by decide), Rune.ofBytes_char (by decide) (by decide),
      i.ofBytes_text, firstOf_within i.tail opening comma]

/-- A size makes an address register an index of the counter in both places. -/
theorem ofOperand_indexing_sized :
    let d := Bytes.ofString "tab-$1F"
    '('.toUInt8 ∉ d ∧ ','.toUInt8 ∉ d ∧
      ofOperand (Bytes.ofString "tab-$1F( Pc ,\tA3.L )") = .pcIndexed ∧
      ofOperand (Bytes.ofString "(tab-$1F, Pc ,\tA3.L )") = .pcIndexed := by
  intro d
  have opening : '('.toUInt8 ∉ d := by decide +kernel
  have comma : ','.toUInt8 ∉ d := by decide +kernel
  let i : Indexing :=
    { base := .counter
      name := Bytes.ofString "Pc"
      named := by decide +kernel
      register := Bytes.ofString "A3"
      isRegister := by decide +kernel
      size := Bytes.ofString ".L"
      isSize := by decide +kernel
      gaps := fun i => [if i = 2 then '\t'.toUInt8 else ' '.toUInt8]
      blank := fun i => List.forall_mem_singleton.mpr (by split <;> decide) }
  have before : Bytes.ofString "tab-$1F( Pc ,\tA3.L )" = d ++ '('.toUInt8 :: i.text := by
    decide +kernel
  have within : Bytes.ofString "(tab-$1F, Pc ,\tA3.L )" =
      '('.toUInt8 :: (d ++ ','.toUInt8 :: i.text) := by decide +kernel
  obtain ⟨h, h'⟩ := ofOperand_indexing i opening comma
  refine ⟨opening, comma, ?_, ?_⟩
  · rw [before, h, if_neg (by decide +kernel)]
    rfl
  · rw [within, h']
    rfl

/-- An address register without a size is taken for the base. -/
theorem ofOperand_counterAddress :
    ∃ i : Indexing, i.base = .counter ∧
      Bytes.ofString "4(pc,a0)" = Bytes.ofString "4" ++ '('.toUInt8 :: i.text ∧
      ofOperand (Bytes.ofString "4(pc,a0)") = .displaced := by
  let i : Indexing :=
    { base := .counter
      name := Bytes.ofString "pc"
      named := by decide +kernel
      register := Bytes.ofString "a0"
      isRegister := by decide +kernel
      size := []
      isSize := by decide +kernel
      gaps := fun _ => []
      blank := fun _ => List.forall_mem_nil _ }
  exact ⟨i, rfl, by decide +kernel, by decide +kernel⟩

end Asm68k.Mode
