import Asm68k.Proofs.Expression.Lookups
import Asm68k.Proofs.Mode.Names

/-!
Operands that are expressions without parentheses. They are absolute addresses, but for those in
which a part reads as two registers that are joined.
-/

namespace Asm68k.Mode

open Pattern

/-! ### Finding names -/

section

variable {p : Pattern} {names : List Bytes} {text : Bytes}

theorem Lists.occursIn_iff_infix (h : Lists p names) (filled : p.canBeEmpty = false)
    (plain : Unfolded (Rune.ofBytes text)) :
    p.occursIn (Rune.ofBytes text) = true ↔ ∃ name ∈ names, name <:+: text := by
  rw [occursIn_iff]
  constructor
  · rintro ⟨before, s, after, described, same⟩
    rw [same] at plain
    have here := (List.forall_mem_append.mp (List.forall_mem_append.mp plain).2).1
    have bytes := Rune.eq_flatMap_of_ofBytes same
    rw [List.flatMap_append, List.flatMap_append] at bytes
    exact ⟨_, h.mem described here, _, _, by rw [bytes, List.append_assoc]⟩
  · rintro ⟨name, named, before, after, rfl⟩
    rw [List.append_assoc, h.ofBytes_append filled named]
    exact ⟨_, _, _, h.describes name named, rfl⟩

theorem Lists.endsIn_iff_suffix (h : Lists p names) (filled : p.canBeEmpty = false)
    (plain : Unfolded (Rune.ofBytes text)) :
    p.endsIn (Rune.ofBytes text) = true ↔ ∃ name ∈ names, name <:+ text := by
  rw [endsIn_iff]
  constructor
  · rintro ⟨before, s, described, same⟩
    rw [same] at plain
    have bytes := Rune.eq_flatMap_of_ofBytes same
    rw [List.flatMap_append] at bytes
    exact ⟨_, h.mem described (List.forall_mem_append.mp plain).2, _, bytes.symm⟩
  · rintro ⟨name, named, before, rfl⟩
    have whole := h.ofBytes_append filled named before []
    rw [List.append_nil, show Rune.ofBytes [] = [] from rfl, List.append_nil] at whole
    rw [whole]
    exact ⟨_, _, h.describes name named, rfl⟩

theorem Lists.mem_of_fitsWhole (h : Lists p names) (plain : Unfolded (Rune.ofBytes text))
    (fits : p.fitsWhole (Rune.ofBytes text) = true) : text ∈ names := by
  have member := h.mem (fitsWhole_iff.mp fits) plain
  rwa [Rune.flatMap_toBytes_ofBytes] at member

end

/-! ### Joined registers and sizes -/

/-- Some part of the text is two names of registers with a minus sign or a slash between them. -/
def JoinsRegisters (text : Bytes) : Prop :=
  ∃ name ∈ registerNames, ∃ sign ∈ Bytes.ofString "-/", ∃ name' ∈ registerNames,
    name ++ sign :: name' <:+: text

/-- The text ends in the size of a word. -/
def EndsShort (text : Bytes) : Prop := ∃ suffix ∈ spellings ".w", suffix <:+ text

instance : DecidablePred JoinsRegisters := fun _ =>
  inferInstanceAs (Decidable (∃ name ∈ registerNames, _))

instance : DecidablePred EndsShort := fun text =>
  inferInstanceAs (Decidable (∃ suffix ∈ spellings ".w", suffix <:+ text))

section

variable {text : Bytes} (plain : Unfolded (Rune.ofBytes text))
include plain

theorem occursIn_registers_iff :
    (chain [anyRegister, .one fun r => r.isChar '/' || r.isChar '-', anyRegister]).occursIn
        (Rune.ofBytes text) = true ↔ JoinsRegisters text := by
  have sign : Lists (.one fun r => r.isChar '/' || r.isChar '-')
      ((Bytes.ofString "-/").map ([·])) := by
    apply Lists.one ['-', '/'] (by decide)
    intro r either _
    rcases (Bool.or_eq_true _ _).mp either with slash | minus
    · exact ⟨'/', by decide, beq_iff_eq.mp slash⟩
    · exact ⟨'-', by decide, beq_iff_eq.mp minus⟩
  have joined := lists_anyRegister.seq (sign.seq lists_anyRegister)
  refine (joined.occursIn_iff_infix (by decide) plain).trans ?_
  simp only [List.mem_flatMap, List.mem_map]
  constructor
  · rintro ⟨_, ⟨name, named, _, ⟨_, ⟨sign, signed, rfl⟩, name', named', rfl⟩, rfl⟩, part⟩
    exact ⟨name, named, sign, signed, name', named', part⟩
  · rintro ⟨name, named, sign, signed, name', named', part⟩
    exact ⟨_, ⟨name, named, _, ⟨_, ⟨sign, signed, rfl⟩, name', named', rfl⟩, rfl⟩, part⟩

theorem endsIn_short_iff :
    (seq (char '.') (letter 'w')).endsIn (Rune.ofBytes text) = true ↔ EndsShort text := by
  have dot : Lists (char '.') [['.'.toUInt8]] := by
    apply Lists.one ['.'] (by decide)
    exact fun r same _ => ⟨'.', by decide, beq_iff_eq.mp same⟩
  have size : Lists (seq (char '.') (letter 'w')) (spellings ".w") :=
    (dot.seq (lists_letter (by decide))).congr (by decide +kernel)
  exact size.endsIn_iff_suffix (by decide) plain

/-! ### Forms that do not fit -/

theorem reserved_of_fitsWhole {p : Pattern}
    (listed : p ∈ [dataRegister, addressRegister, word "ccr", word "sr", word "usp"])
    (fits : p.fitsWhole (Rune.ofBytes text) = true) : text ∈ reservedNames := by
  have named {name : String} (h : Lists p (spellings name)) (last : name ∈ ["ccr", "sr", "usp"]) :
      text ∈ reservedNames :=
    List.mem_append_right _ (List.mem_flatMap.mpr ⟨name, last, h.mem_of_fitsWhole plain fits⟩)
  have register (h : text ∈ registerNames) : text ∈ reservedNames :=
    List.mem_append_left _ (List.mem_append_left _ h)
  simp only [List.mem_cons, List.not_mem_nil, or_false] at listed
  rcases listed with rfl | rfl | rfl | rfl | rfl
  · exact register (List.mem_append_left _ (lists_dataRegister.mem_of_fitsWhole plain fits))
  · exact register (List.mem_append_right _ (lists_addressRegister.mem_of_fitsWhole plain fits))
  · exact named (lists_word "ccr" (by decide)) (by decide)
  · exact named (lists_word "sr" (by decide)) (by decide)
  · exact named (lists_word "usp" (by decide)) (by decide)

end

namespace Base

variable (base : Base) {runes : List Rune}

theorem not_indexes_of_closing (none : .scalar ')' ∉ runes) : ¬base.indexes runes = true := by
  intro h
  obtain ⟨before, _, rfl, -, fits⟩ := occursIn_comma_iff.mp h
  obtain ⟨_, rest, described, rfl⟩ := fitsFront_iff.mp fits
  obtain ⟨gap, _, -, inner, rfl⟩ := describes_seq_iff.mp described
  obtain ⟨s, -, rfl⟩ := describes_closing_iff.mp inner
  simp at none

theorem not_follows (none : .scalar '(' ∉ runes) : ¬base.follows runes = true := by
  intro h
  obtain ⟨before, after, rfl, -⟩ := occursIn_opening_iff.mp h
  simp at none

theorem not_pairs_of_opening (none : .scalar '(' ∉ runes) : ¬base.pairs runes = true := by
  intro h
  obtain ⟨before, after, rfl, -⟩ := endsIn_opening_iff.mp h
  simp at none

end Base

/-! ### Expressions -/

/-- The forms that have no base register and are tried last. -/
theorem firstOf_last (runes : List Rune) :
    firstOf (forms.drop 11) runes =
      if (seq (char '#') (.one fun r => !r.isChar '\n')).fitsFront runes = true then .immediate
      else if (chain [anyRegister, .one fun r => r.isChar '/' || r.isChar '-',
        anyRegister]).occursIn runes = true then .registers
      else if (word "ccr").fitsWhole runes = true then .ccr
      else if (word "sr").fitsWhole runes = true then .sr
      else if (word "usp").fitsWhole runes = true then .usp
      else if (seq (char '.') (letter 'w')).endsIn runes = true then .absWord
      else .absLong := by
  simp only [forms, List.drop_succ_cons, List.drop_zero, firstOf_cons]
  rfl

theorem head?_of_fitsFront {text : Bytes} {q : Pattern}
    (fits : (seq (char '#') q).fitsFront (Rune.ofBytes text) = true) :
    text.head? = some '#'.toUInt8 := by
  obtain ⟨_, rest, described, same⟩ := fitsFront_iff.mp fits
  obtain ⟨_, t, sign, -, rfl⟩ := describes_seq_iff.mp described
  obtain rfl := describes_char_iff.mp sign
  rw [Rune.eq_flatMap_of_ofBytes same]
  rfl

theorem mentions_reserved {name : Bytes} (named : name ∈ reservedNames) :
    name ∈ Expression.mentions name := by
  have checked : reservedNames.all (fun name => (Expression.mentions name).contains name) = true := by
    decide +kernel
  exact List.contains_iff_mem.mp (List.all_eq_true.mp checked name named)

/-- An expression without parentheses and names of registers is an absolute address, unless a part
of it reads as two registers joined by a minus sign or a slash. -/
theorem ofOperand_expression {symbols : Bytes → Option Int64} {e : Bytes} {v : Int64}
    (accepted : Expression.evaluate symbols e = .ok v) (unquoted : Expression.Unquoted e)
    (unmarked : e.head? ≠ some '#'.toUInt8) (opening : '('.toUInt8 ∉ e) (closing : ')'.toUInt8 ∉ e)
    (fresh : ∀ name ∈ Expression.mentions e, name ∉ reservedNames) :
    ofOperand e =
      if JoinsRegisters e then .registers else if EndsShort e then .absWord else .absLong := by
  have plain := unfolded_of_evaluate accepted unquoted
  have opening := scalar_notMem_ofBytes opening (by decide)
  have closing := scalar_notMem_ofBytes closing (by decide)
  have other : e ∉ reservedNames := fun named => fresh e (mentions_reserved named) named
  have unnamed {p : Pattern}
      (listed : p ∈ [dataRegister, addressRegister, word "ccr", word "sr", word "usp"]) :
      ¬p.fitsWhole (Rune.ofBytes e) = true :=
    fun fits => other (reserved_of_fitsWhole plain listed fits)
  have skipped : ∀ form ∈ forms.take 5, ¬form.2.fits (Rune.ofBytes e) = true := by
    intro form listed fits
    rcases fits_first_cases listed fits with data | address | ⟨t, same⟩ | ⟨t, same⟩
    · exact unnamed (by simp) data
    · exact unnamed (by simp) address
    · simp [same] at opening
    · simp [same] at opening
  rw [ofOperand_eq, forms_eq, firstOf_append skipped, Base.firstOf_forms,
    if_neg (Base.not_indexes_of_closing _ closing), if_neg (Base.not_follows _ opening),
    if_neg (Base.not_pairs_of_opening _ opening), Base.firstOf_forms,
    if_neg (Base.not_indexes_of_closing _ closing), if_neg (Base.not_follows _ opening),
    if_neg (Base.not_pairs_of_opening _ opening), firstOf_last,
    if_neg fun fits => unmarked (head?_of_fitsFront fits),
    if_neg (unnamed (by simp)), if_neg (unnamed (by simp)), if_neg (unnamed (by simp))]
  simp only [occursIn_registers_iff plain, endsIn_short_iff plain]

/-- A difference of symbols of which the first ends like a register. -/
theorem ofOperand_expression_difference :
    let symbols := fun name => if name = Bytes.ofString "grid0" then some 8 else some 3
    let e := Bytes.ofString "grid0-base.W"
    Expression.evaluate symbols e = .ok 5 ∧ Expression.Unquoted e ∧
      e.head? ≠ some '#'.toUInt8 ∧ '('.toUInt8 ∉ e ∧ ')'.toUInt8 ∉ e ∧
      (∀ name ∈ Expression.mentions e, name ∉ reservedNames) ∧ ofOperand e = .absWord := by
  intro symbols e
  have accepted : Expression.evaluate symbols e = .ok 5 := by decide +kernel
  have unquoted : Expression.Unquoted e := by decide +kernel
  have unmarked : e.head? ≠ some '#'.toUInt8 := by decide +kernel
  have opening : '('.toUInt8 ∉ e := by decide +kernel
  have closing : ')'.toUInt8 ∉ e := by decide +kernel
  have fresh : ∀ name ∈ Expression.mentions e, name ∉ reservedNames := by decide +kernel
  have apart : ¬JoinsRegisters e :=
    mt (occursIn_registers_iff (unfolded_of_evaluate accepted unquoted)).mpr (by decide +kernel)
  refine ⟨accepted, unquoted, unmarked, opening, closing, fresh, ?_⟩
  rw [ofOperand_expression accepted unquoted unmarked opening closing fresh, if_neg apart,
    if_pos (by decide +kernel)]

/-- A difference of two symbols that reads as a list of registers in the middle. -/
theorem ofOperand_joinedSymbols :
    let symbols := fun name => if name = Bytes.ofString "grid0" then some 8 else some 3
    let e := Bytes.ofString "grid0-d1start"
    Expression.evaluate symbols e = .ok 5 ∧
      Expression.mentions e = [Bytes.ofString "grid0", Bytes.ofString "d1start"] ∧
      (∀ name ∈ Expression.mentions e, name ∉ reservedNames) ∧ ofOperand e = .registers := by
  decide +kernel

end Asm68k.Mode
