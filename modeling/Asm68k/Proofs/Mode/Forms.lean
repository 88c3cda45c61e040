import Mathlib.Data.List.Basic
import Asm68k.Mode.Operand
import Asm68k.Proofs.Pattern

/-!
The forms of operands that have a base register. Each of them has a comma or a parenthesis in a
fixed place, so in a text with few of these it is enough to look at what stands on either side of one.
-/

namespace Asm68k.Mode

open Pattern

/-! ### The first form that fits -/

/-- The mode of the first form that fits, and an absolute address if none does. -/
def firstOf (forms : List (Mode × Form)) (runes : List Rune) : Mode :=
  match forms.find? (·.2.fits runes) with
  | some (mode, _) => mode
  | none => .absLong

theorem ofOperand_eq (text : Bytes) : ofOperand text = firstOf forms (Rune.ofBytes text) := rfl

section

variable {forms others : List (Mode × Form)} {runes : List Rune}

theorem firstOf_cons (mode : Mode) (form : Form) :
    firstOf ((mode, form) :: forms) runes =
      if form.fits runes = true then mode else firstOf forms runes := by
  unfold firstOf
  rw [List.find?_cons]
  cases form.fits runes <;> rfl

theorem firstOf_append (none : ∀ form ∈ forms, ¬form.2.fits runes = true) :
    firstOf (forms ++ others) runes = firstOf others runes := by
  unfold firstOf
  rw [List.find?_append, List.find?_eq_none.mpr none, Option.none_or]

/-- A form of the mode fits. -/
theorem exists_fit_of_firstOf {mode : Mode} (h : firstOf forms runes = mode)
    (other : mode ≠ .absLong) : ∃ form, (mode, form) ∈ forms ∧ form.fits runes = true := by
  unfold firstOf at h
  split at h
  · rename_i form found
    subst h
    exact ⟨form, List.mem_of_find?_eq_some found, @List.find?_some _ _ (_, form) _ found⟩
  · exact absurd h.symm other

end

/-! ### Blanks -/

def Blank (gap : List Rune) : Prop := ∀ r ∈ gap, isBlank r = true

theorem blank_left_inj {gap gap' rest rest' : List Rune} {r r' : Rune} (blank : Blank gap)
    (blank' : Blank gap') (ink : isBlank r = false) (ink' : isBlank r' = false)
    (same : gap ++ r :: rest = gap' ++ r' :: rest') : gap = gap' ∧ r :: rest = r' :: rest' := by
  induction gap generalizing gap' with
  | nil =>
    cases gap' with
    | nil => exact ⟨rfl, same⟩
    | cons x gap' =>
      obtain ⟨rfl, -⟩ := List.cons.inj same
      simp [blank' r List.mem_cons_self] at ink
  | cons x gap ih =>
    cases gap' with
    | nil =>
      obtain ⟨rfl, -⟩ := List.cons.inj same
      simp [blank x List.mem_cons_self] at ink'
    | cons x' gap' =>
      obtain ⟨rfl, rest⟩ := List.cons.inj same
      obtain ⟨rfl, texts⟩ :=
        ih (List.forall_mem_cons.mp blank).2 (List.forall_mem_cons.mp blank').2 rest
      exact ⟨rfl, texts⟩

theorem blank_right_inj {gap gap' front front' : List Rune} {r r' : Rune} (blank : Blank gap)
    (blank' : Blank gap') (ink : isBlank r = false) (ink' : isBlank r' = false)
    (same : front ++ r :: gap = front' ++ r' :: gap') : front ++ [r] = front' ++ [r'] := by
  have turned : gap.reverse ++ r :: front.reverse = gap'.reverse ++ r' :: front'.reverse := by
    simpa using congrArg List.reverse same
  obtain ⟨-, texts⟩ := blank_left_inj (by simpa [Blank] using blank)
    (by simpa [Blank] using blank') ink ink' turned
  simpa using congrArg List.reverse texts

/-- The text begins and ends with runes that are no blanks. -/
structure Solid (text : List Rune) : Prop where
  head : ∃ r rest, text = r :: rest ∧ isBlank r = false
  last : ∃ front r, text = front ++ [r] ∧ isBlank r = false

theorem solid_inj {front text back front' text' back' : List Rune} (solid : Solid text)
    (solid' : Solid text') (before : Blank front) (before' : Blank front') (after : Blank back)
    (after' : Blank back') (same : front ++ (text ++ back) = front' ++ (text' ++ back')) :
    text = text' := by
  obtain ⟨r, rest, begins, ink⟩ := solid.head
  obtain ⟨r', rest', begins', ink'⟩ := solid'.head
  rw [begins, begins', List.cons_append, List.cons_append] at same
  obtain ⟨-, same⟩ := blank_left_inj before before' ink ink' same
  rw [← List.cons_append, ← List.cons_append, ← begins, ← begins'] at same
  obtain ⟨front, r, ends, ink⟩ := solid.last
  obtain ⟨front', r', ends', ink'⟩ := solid'.last
  rw [ends, ends', List.append_assoc, List.append_assoc] at same
  rw [ends, ends']
  exact blank_right_inj after after' ink ink' same

/-- What the pattern describes is solid. -/
def isSolid (p : Pattern) : Bool :=
  !p.canBeEmpty &&
    ['\t', '\n', '\x0c', '\r', ' '].all fun c =>
      !p.mayBegin (.scalar c) && !p.mayEnd (.scalar c)

theorem isBlank_of_isSolid {p : Pattern} (solid : isSolid p = true) {r : Rune}
    (edge : p.mayBegin r = true ∨ p.mayEnd r = true) : isBlank r = false := by
  rw [Bool.eq_false_iff]
  intro blank
  obtain ⟨c, listed, same⟩ := List.any_eq_true.mp blank
  obtain rfl : r = .scalar c := beq_iff_eq.mp same
  have neither := List.all_eq_true.mp (Bool.and_eq_true_iff.mp solid).2 c listed
  rw [Bool.and_eq_true, Bool.not_eq_true', Bool.not_eq_true'] at neither
  rcases edge with first | last
  · exact Bool.false_ne_true (neither.1.symm.trans first)
  · exact Bool.false_ne_true (neither.2.symm.trans last)

theorem solid_of_describes {p : Pattern} (solid : isSolid p = true) {text : List Rune}
    (h : p.Describes text) : Solid text := by
  have nonempty : text ≠ [] := by
    rintro rfl
    have filled := (Bool.and_eq_true_iff.mp solid).1
    rw [h.canBeEmpty] at filled
    cases filled
  constructor
  · obtain ⟨r, rest, rfl⟩ := List.exists_cons_of_ne_nil nonempty
    exact ⟨r, rest, rfl, isBlank_of_isSolid solid (.inl h.mayBegin)⟩
  · have split := List.dropLast_concat_getLast nonempty
    rw [← split] at h
    exact ⟨_, _, split.symm, isBlank_of_isSolid solid (.inr h.mayEnd)⟩

/-! ### Marks -/

section

variable {p q : Pattern} {runes : List Rune}

theorem describes_comma_iff :
    (seq p (seq comma q)).Describes runes ↔
      ∃ s t, (seq p blanks).Describes s ∧ (seq blanks q).Describes t ∧
        runes = s ++ .scalar ',' :: t := by
  simp only [describes_seq_iff, comma, chain, describes_char_iff]
  constructor
  · rintro ⟨s, _, hs, ⟨_, t, ⟨gap, _, blank, ⟨_, gap', rfl, blank', rfl⟩, rfl⟩, ht, rfl⟩, rfl⟩
    exact ⟨s ++ gap, gap' ++ t, ⟨s, gap, hs, blank, rfl⟩, ⟨gap', t, blank', ht, rfl⟩, by simp⟩
  · rintro ⟨_, _, ⟨s, gap, hs, blank, rfl⟩, ⟨gap', t, blank', ht, rfl⟩, rfl⟩
    exact ⟨s, _, hs, ⟨_, t, ⟨gap, _, blank, ⟨_, gap', rfl, blank', rfl⟩, rfl⟩, ht, rfl⟩, by simp⟩

theorem describes_opening_iff :
    (seq opening q).Describes runes ↔
      ∃ t, (seq blanks q).Describes t ∧ runes = .scalar '(' :: t := by
  simp only [describes_seq_iff, opening, describes_char_iff]
  constructor
  · rintro ⟨_, t, ⟨_, gap, rfl, blank, rfl⟩, ht, rfl⟩
    exact ⟨gap ++ t, ⟨gap, t, blank, ht, rfl⟩, rfl⟩
  · rintro ⟨_, ⟨gap, t, blank, ht, rfl⟩, rfl⟩
    exact ⟨_, t, ⟨_, gap, rfl, blank, rfl⟩, ht, rfl⟩

theorem describes_closing_iff :
    (seq p closing).Describes runes ↔
      ∃ s, (seq p blanks).Describes s ∧ runes = s ++ [.scalar ')'] := by
  simp only [describes_seq_iff, closing, describes_char_iff]
  constructor
  · rintro ⟨s, _, hs, ⟨gap, _, blank, rfl, rfl⟩, rfl⟩
    exact ⟨s ++ gap, ⟨s, gap, hs, blank, rfl⟩, by simp⟩
  · rintro ⟨_, ⟨s, gap, hs, blank, rfl⟩, rfl⟩
    exact ⟨s, _, hs, ⟨gap, _, blank, rfl, rfl⟩, by simp⟩

theorem occursIn_comma_iff :
    (seq p (seq comma q)).occursIn runes = true ↔
      ∃ before after, runes = before ++ .scalar ',' :: after ∧
        (seq p blanks).endsIn before = true ∧ (seq blanks q).fitsFront after = true := by
  simp only [occursIn_iff, endsIn_iff, fitsFront_iff, describes_comma_iff]
  constructor
  · rintro ⟨before, _, after, ⟨s, t, hs, ht, rfl⟩, rfl⟩
    exact ⟨before ++ s, t ++ after, by simp, ⟨before, s, hs, rfl⟩, t, after, ht, rfl⟩
  · rintro ⟨_, _, rfl, ⟨before, s, hs, rfl⟩, t, after, ht, rfl⟩
    exact ⟨before, _, after, ⟨s, t, hs, ht, rfl⟩, by simp⟩

theorem occursIn_opening_iff :
    (seq p (seq opening q)).occursIn runes = true ↔
      ∃ before after, runes = before ++ .scalar '(' :: after ∧
        p.endsIn before = true ∧ (seq blanks q).fitsFront after = true := by
  simp only [occursIn_iff, endsIn_iff, fitsFront_iff, describes_seq_iff (p := p),
    describes_opening_iff]
  constructor
  · rintro ⟨before, _, after, ⟨s, _, hs, ⟨t, ht, rfl⟩, rfl⟩, rfl⟩
    exact ⟨before ++ s, t ++ after, by simp, ⟨before, s, hs, rfl⟩, t, after, ht, rfl⟩
  · rintro ⟨_, _, rfl, ⟨before, s, hs, rfl⟩, t, after, ht, rfl⟩
    exact ⟨before, _, after, ⟨s, _, hs, ⟨t, ht, rfl⟩, rfl⟩, by simp⟩

theorem endsIn_opening_iff :
    (seq opening q).endsIn runes = true ↔
      ∃ before after, runes = before ++ .scalar '(' :: after ∧ (seq blanks q).Describes after := by
  simp only [endsIn_iff, describes_opening_iff]
  constructor
  · rintro ⟨before, _, ⟨t, ht, rfl⟩, rfl⟩
    exact ⟨before, t, rfl, ht⟩
  · rintro ⟨before, t, rfl, ht⟩
    exact ⟨before, _, ⟨t, ht, rfl⟩, rfl⟩

/-! ### Edges -/

theorem mayEnd_of_endsIn (solid : isSolid p = true) {front gap : List Rune} {r : Rune}
    (blank : Blank gap) (ink : isBlank r = false)
    (ends : (seq p blanks).endsIn (front ++ r :: gap) = true) : p.mayEnd r = true := by
  obtain ⟨before, _, h, same⟩ := endsIn_iff.mp ends
  obtain ⟨s, gap', hs, hgap, rfl⟩ := describes_seq_iff.mp h
  obtain ⟨front', r', rfl, ink'⟩ := (solid_of_describes solid hs).last
  have split : front ++ r :: gap = (before ++ front') ++ r' :: gap' := by simpa using same
  have ended := blank_right_inj blank (describes_many_iff.mp hgap) ink ink' split
  obtain ⟨-, last⟩ := List.append_inj' ended rfl
  rw [List.singleton_inj.mp last]
  exact hs.mayEnd

theorem mayBegin_of_fitsFront (solid : isSolid q = true) {gap rest : List Rune} {r : Rune}
    (blank : Blank gap) (ink : isBlank r = false)
    (fits : (seq blanks q).fitsFront (gap ++ r :: rest) = true) : q.mayBegin r = true := by
  obtain ⟨_, after, h, same⟩ := fitsFront_iff.mp fits
  obtain ⟨gap', t, hgap, ht, rfl⟩ := describes_seq_iff.mp h
  obtain ⟨r', rest', rfl, ink'⟩ := (solid_of_describes solid ht).head
  have split : gap ++ r :: rest = gap' ++ r' :: (rest' ++ after) := by simpa using same
  obtain ⟨-, texts⟩ := blank_left_inj blank (describes_many_iff.mp hgap) ink ink' split
  rw [(List.cons.inj texts).1]
  exact ht.mayBegin

theorem describes_closed {gap text gap' : List Rune} (blank : Blank gap) (blank' : Blank gap')
    (h : p.Describes text) :
    (seq blanks (seq p closing)).Describes (gap ++ (text ++ (gap' ++ [.scalar ')']))) := by
  refine describes_seq_iff.mpr ⟨gap, _, .many blank, ?_, rfl⟩
  refine describes_closing_iff.mpr ⟨text ++ gap', ?_, (List.append_assoc _ _ _).symm⟩
  exact describes_seq_iff.mpr ⟨text, gap', h, .many blank', rfl⟩

theorem describes_closed_iff (solid : isSolid p = true) {gap text gap' : List Rune}
    (blank : Blank gap) (blank' : Blank gap') (ink : Solid text) :
    (seq blanks (seq p closing)).Describes (gap ++ (text ++ (gap' ++ [.scalar ')']))) ↔
      p.Describes text := by
  constructor
  · intro h
    obtain ⟨front, _, hfront, inside, same⟩ := describes_seq_iff.mp h
    obtain ⟨_, inner, rfl⟩ := describes_closing_iff.mp inside
    obtain ⟨s, back, hs, hback, rfl⟩ := describes_seq_iff.mp inner
    have split : gap ++ (text ++ gap') ++ [.scalar ')'] = front ++ (s ++ back) ++ [.scalar ')'] := by
      simpa using same
    have inner := List.append_cancel_right split
    rw [solid_inj ink (solid_of_describes solid hs) blank (describes_many_iff.mp hfront) blank'
      (describes_many_iff.mp hback) inner]
    exact hs
  · exact describes_closed blank blank'

end

/-! ### Base registers -/

inductive Base where
  | address
  | counter
  deriving DecidableEq, Repr

namespace Base

def pattern : Base → Pattern
  | .address => addressRegister
  | .counter => programCounter

def indexedMode : Base → Mode
  | .address => .indexed
  | .counter => .pcIndexed

def displacedMode : Base → Mode
  | .address => .displaced
  | .counter => .pcDisplaced

/-- The base with an index register after a comma. -/
def indexes (base : Base) (runes : List Rune) : Bool :=
  (chain [base.pattern, comma, index, closing]).occursIn runes

/-- The base in parentheses after a word. -/
def follows (base : Base) (runes : List Rune) : Bool :=
  (chain [.one isWord, opening, base.pattern]).occursIn runes

/-- The base in parentheses after a displacement and a comma. -/
def pairs (base : Base) (runes : List Rune) : Bool :=
  (chain [opening, displacement, comma, base.pattern, closing]).endsIn runes

def forms (base : Base) : List (Mode × Form) :=
  [(base.indexedMode, ⟨.anywhere, chain [base.pattern, comma, index, closing]⟩),
    (base.displacedMode, ⟨.anywhere, chain [.one isWord, opening, base.pattern]⟩),
    (base.displacedMode, ⟨.back, chain [opening, displacement, comma, base.pattern, closing]⟩)]

theorem firstOf_forms (base : Base) (others : List (Mode × Form)) (runes : List Rune) :
    firstOf (base.forms ++ others) runes =
      if base.indexes runes = true then base.indexedMode
      else if base.follows runes = true then base.displacedMode
      else if base.pairs runes = true then base.displacedMode
      else firstOf others runes := by
  rw [forms, List.cons_append, firstOf_cons, List.cons_append, firstOf_cons, List.cons_append,
    firstOf_cons, List.nil_append]
  rfl

section

variable (base : Base) {front back runes : List Rune}

theorem indexes_iff (fresh : .scalar ',' ∉ front) (fresh' : .scalar ',' ∉ back) :
    base.indexes (front ++ .scalar ',' :: back) = true ↔
      (seq base.pattern blanks).endsIn front = true ∧
        (seq blanks (seq index closing)).fitsFront back = true := by
  refine occursIn_comma_iff.trans ⟨?_, ?_⟩
  · rintro ⟨before, after, same, h⟩
    obtain ⟨rfl, -, rfl⟩ := (List.append_cons_inj_of_notMem fresh fresh').mp same
    exact h
  · exact fun h => ⟨front, back, rfl, h⟩

theorem follows_iff (fresh : .scalar '(' ∉ front) (fresh' : .scalar '(' ∉ back) :
    base.follows (front ++ .scalar '(' :: back) = true ↔
      (one isWord).endsIn front = true ∧ (seq blanks base.pattern).fitsFront back = true := by
  refine occursIn_opening_iff.trans ⟨?_, ?_⟩
  · rintro ⟨before, after, same, h⟩
    obtain ⟨rfl, -, rfl⟩ := (List.append_cons_inj_of_notMem fresh fresh').mp same
    exact h
  · exact fun h => ⟨front, back, rfl, h⟩

theorem not_follows_first (fresh : .scalar '(' ∉ back) :
    ¬base.follows (.scalar '(' :: back) = true := by
  rw [← List.nil_append (_ :: _), base.follows_iff List.not_mem_nil fresh]
  exact fun h => Bool.false_ne_true h.1

theorem pairs_iff (fresh : .scalar '(' ∉ front) (fresh' : .scalar '(' ∉ back) :
    base.pairs (front ++ .scalar '(' :: back) = true ↔
      ∃ before after, (seq blanks (seq displacement blanks)).Describes before ∧
        (seq blanks (seq base.pattern closing)).Describes after ∧
        back = before ++ .scalar ',' :: after := by
  refine endsIn_opening_iff.trans ⟨?_, ?_⟩
  · rintro ⟨before, after, same, h⟩
    obtain ⟨rfl, -, rfl⟩ := (List.append_cons_inj_of_notMem fresh fresh').mp same
    obtain ⟨gap, _, hgap, inner, rfl⟩ := describes_seq_iff.mp h
    obtain ⟨s, t, hs, ht, rfl⟩ := describes_comma_iff.mp inner
    exact ⟨gap ++ s, t, describes_seq_iff.mpr ⟨gap, s, hgap, hs, rfl⟩, ht, by simp⟩
  · rintro ⟨before, after, h, h', rfl⟩
    obtain ⟨gap, s, hgap, hs, rfl⟩ := describes_seq_iff.mp h
    refine ⟨front, _, rfl, describes_seq_iff.mpr ⟨gap, s ++ .scalar ',' :: after, hgap, ?_, by simp⟩⟩
    exact describes_comma_iff.mpr ⟨s, after, hs, h', rfl⟩

end

theorem isSolid_pattern (base : Base) : isSolid base.pattern = true := by
  cases base <;> decide

theorem not_indexes (base : Base) {runes : List Rune} (none : .scalar ',' ∉ runes) :
    ¬base.indexes runes = true := by
  intro h
  obtain ⟨before, after, rfl, -⟩ := occursIn_comma_iff.mp h
  simp at none

theorem not_pairs (base : Base) {runes : List Rune} (none : .scalar ',' ∉ runes) :
    ¬base.pairs runes = true := by
  intro h
  obtain ⟨before, _, rfl, inside⟩ := endsIn_opening_iff.mp h
  obtain ⟨gap, _, -, inner, rfl⟩ := describes_seq_iff.mp inside
  obtain ⟨s, t, -, -, rfl⟩ := describes_comma_iff.mp inner
  simp at none

end Base

/-! ### The program counter -/

theorem programCounter_eq : programCounter = seq (letter 'p') (letter 'c') := rfl

theorem foldsTo_eq {c : Char} (other : c ≠ 's' ∧ c ≠ 'k') {r : Rune} (folds : foldsTo c r = true) :
    r = .scalar c ∨ r = .scalar c.toUpper := by
  simpa [foldsTo, other, Rune.isChar] using folds

theorem describes_counter {name : List Rune} (h : programCounter.Describes name) :
    ∃ r r', name = [r, r'] ∧ (r = .scalar 'p' ∨ r = .scalar 'P') ∧
      (r' = .scalar 'c' ∨ r' = .scalar 'C') := by
  rw [programCounter_eq] at h
  obtain ⟨s, t, hs, ht, rfl⟩ := describes_seq_iff.mp h
  obtain ⟨r, folds, rfl⟩ := describes_one_iff.mp hs
  obtain ⟨r', folds', rfl⟩ := describes_one_iff.mp ht
  exact ⟨r, r', rfl, foldsTo_eq (by decide) folds, foldsTo_eq (by decide) folds'⟩

/-- No pattern that begins otherwise finds the counter's name. -/
theorem counter_not_fitsFront {q : Pattern} (solid : isSolid q = true)
    (other : q.mayBegin (.scalar 'p') = false ∧ q.mayBegin (.scalar 'P') = false)
    {gap name : List Rune} (blank : Blank gap) (named : programCounter.Describes name)
    (rest : List Rune) : ¬(seq blanks q).fitsFront (gap ++ (name ++ rest)) = true := by
  intro fits
  obtain ⟨r, r', rfl, first, -⟩ := describes_counter named
  rcases first with rfl | rfl
  · exact Bool.false_ne_true (other.1.symm.trans (mayBegin_of_fitsFront solid blank rfl fits))
  · exact Bool.false_ne_true (other.2.symm.trans (mayBegin_of_fitsFront solid blank rfl fits))

/-! ### All forms -/

theorem forms_eq : forms = forms.take 5 ++ (Base.address.forms ++ (Base.counter.forms ++
    forms.drop 11)) := rfl

/-- The forms that are tried first: a register, alone or in parentheses. -/
theorem fits_first_cases {form : Mode × Form} (listed : form ∈ forms.take 5) {runes : List Rune}
    (fits : form.2.fits runes = true) :
    dataRegister.fitsWhole runes = true ∨ addressRegister.fitsWhole runes = true ∨
      (∃ t, runes = .scalar '(' :: t) ∨ ∃ t, runes = .scalar '-' :: .scalar '(' :: t := by
  simp only [forms, List.take_succ_cons, List.take_zero, List.mem_cons, List.not_mem_nil,
    or_false] at listed
  rcases listed with rfl | rfl | rfl | rfl | rfl
  · exact .inl fits
  · exact .inr (.inl fits)
  · obtain ⟨t, -, same⟩ := describes_opening_iff.mp (fitsWhole_iff.mp fits)
    exact .inr (.inr (.inl ⟨t, same⟩))
  · obtain ⟨t, -, same⟩ := describes_opening_iff.mp (fitsWhole_iff.mp fits)
    exact .inr (.inr (.inl ⟨t, same⟩))
  · obtain ⟨_, _, sign, inside, same⟩ := describes_seq_iff.mp (fitsWhole_iff.mp fits)
    obtain rfl := describes_char_iff.mp sign
    obtain ⟨t, -, rfl⟩ := describes_opening_iff.mp inside
    exact .inr (.inr (.inr ⟨t, same⟩))

/-- A comma rules out the forms that have no base and are tried first. -/
theorem firstOf_comma {runes : List Rune} (comma : .scalar ',' ∈ runes) :
    firstOf forms runes = firstOf (Base.address.forms ++ (Base.counter.forms ++ forms.drop 11)) runes := by
  have avoided : ∀ form ∈ forms.take 5, form.2.placement = .whole ∧
      form.2.pattern.avoids (.scalar ',') = true := by decide
  rw [forms_eq]
  apply firstOf_append
  intro form listed fits
  obtain ⟨whole, avoids⟩ := avoided form listed
  rw [Form.fits, whole] at fits
  exact (fitsWhole_iff.mp fits).not_mem avoids comma

theorem fits_of_displaced {base : Base} {runes : List Rune}
    (h : firstOf forms runes = base.displacedMode) :
    base.follows runes = true ∨ base.pairs runes = true := by
  obtain ⟨form, listed, fits⟩ := exists_fit_of_firstOf h (by cases base <;> decide)
  cases base
  all_goals
    simp only [forms, List.mem_cons, Base.displacedMode, Prod.mk.injEq, reduceCtorEq, false_and,
      true_and, List.not_mem_nil, or_false, false_or] at listed
    rcases listed with rfl | rfl
    · exact .inl fits
    · exact .inr fits

end Asm68k.Mode
