import Asm68k.Proofs.Expression.Lookups
import Asm68k.Proofs.Mode.Names
import Asm68k.Proofs.Statement.Alike

/-!
Operands with a displacement, which may stand before the parentheses or in them. The forms for the
two places accept different texts: before the parentheses it is enough that the displacement ends in
a word, and in them all of it has to be words and minus signs. So not every displacement can be
written in either place.
-/

namespace Asm68k.Mode

open Pattern

/-! ### Forms that fit -/

section

variable {base : Base} {d name : List Rune} (named : base.pattern.Describes name)
  (opening : .scalar '(' ∉ d) (comma : .scalar ',' ∉ d)

theorem eq_nil_of_opening {d rest t : List Rune} (fresh : .scalar '(' ∉ d)
    (same : d ++ .scalar '(' :: rest = .scalar '(' :: t) : d = [] := by
  cases d with
  | nil => rfl
  | cons r d =>
    obtain ⟨rfl, -⟩ := List.cons.inj same
    exact absurd List.mem_cons_self fresh

include opening in
/-- The forms that are tried first leave no room for a displacement. -/
theorem eq_of_fits {rest : List Rune} {form : Mode × Form} (listed : form ∈ forms.take 5)
    (fits : form.2.fits (d ++ .scalar '(' :: rest) = true) : d = [] ∨ d = [.scalar '-'] := by
  have member : .scalar '(' ∈ d ++ .scalar '(' :: rest := by simp
  rcases fits_first_cases listed fits with data | address | ⟨t, same⟩ | ⟨t, same⟩
  · exact absurd member ((fitsWhole_iff.mp data).not_mem (by decide))
  · exact absurd member ((fitsWhole_iff.mp address).not_mem (by decide))
  · exact .inl (eq_nil_of_opening opening same)
  · cases d with
    | nil => cases same
    | cons r d =>
      obtain ⟨rfl, rest⟩ := List.cons.inj same
      rw [eq_nil_of_opening (List.not_mem_of_not_mem_cons opening) rest]
      exact .inr rfl

include named in
theorem fitsFront_name : (seq blanks base.pattern).fitsFront (name ++ [.scalar ')']) = true :=
  fitsFront_iff.mpr ⟨name, _, .seq (.many (List.forall_mem_nil _)) named, rfl⟩

include named opening comma in
/-- A displacement before the parentheses is recognised if it ends in a word. -/
theorem firstOf_before_iff :
    firstOf forms (d ++ .scalar '(' :: (name ++ [.scalar ')'])) = base.displacedMode ↔
      (one isWord).endsIn d = true := by
  have closed : .scalar '(' ∉ name ++ [.scalar ')'] := by
    simpa using named.not_mem (by cases base <;> decide)
  have none : .scalar ',' ∉ d ++ .scalar '(' :: (name ++ [.scalar ')']) := by
    simpa [comma] using named.not_mem (by cases base <;> decide)
  constructor
  · intro h
    rcases fits_of_displaced h with follows | pairs
    · exact ((base.follows_iff opening closed).mp follows).1
    · exact absurd pairs (base.not_pairs none)
  · intro word
    have skipped : ∀ form ∈ forms.take 5,
        ¬form.2.fits (d ++ .scalar '(' :: (name ++ [.scalar ')'])) = true := by
      intro form listed fits
      rcases eq_of_fits opening listed fits with rfl | rfl <;> cases word
    have follows := (base.follows_iff opening closed).mpr ⟨word, fitsFront_name named⟩
    rw [forms_eq, firstOf_append skipped, Base.firstOf_forms, if_neg (Base.not_indexes _ none)]
    cases base with
    | address => exact if_pos follows
    | counter =>
      have address : ¬Base.address.follows (d ++ .scalar '(' :: (name ++ [.scalar ')'])) = true := by
        rw [Base.address.follows_iff opening closed]
        exact fun h => counter_not_fitsFront (by decide) (by decide) (List.forall_mem_nil _) named _ h.2
      rw [if_neg address, if_neg (Base.not_pairs _ none), Base.firstOf_forms,
        if_neg (Base.not_indexes _ none), if_pos follows]

include named opening comma in
theorem pairs_within_iff (other : Base) :
    other.pairs (.scalar '(' :: (d ++ .scalar ',' :: (name ++ [.scalar ')']))) = true ↔
      (seq blanks (seq displacement blanks)).Describes d ∧
        (seq blanks (seq other.pattern closing)).Describes (name ++ [.scalar ')']) := by
  have opened : .scalar '(' ∉ d ++ .scalar ',' :: (name ++ [.scalar ')']) := by
    simpa [opening] using named.not_mem (by cases base <;> decide)
  have closed : .scalar ',' ∉ name ++ [.scalar ')'] := by
    simpa using named.not_mem (by cases base <;> decide)
  rw [← List.nil_append (_ :: _), other.pairs_iff List.not_mem_nil opened]
  constructor
  · rintro ⟨before, after, hb, ha, same⟩
    obtain ⟨rfl, -, rfl⟩ := (List.append_cons_inj_of_notMem comma closed).mp same
    exact ⟨hb, ha⟩
  · exact fun h => ⟨d, _, h.1, h.2, rfl⟩

include named opening in
theorem not_follows_within (other : Base) :
    ¬other.follows (.scalar '(' :: (d ++ .scalar ',' :: (name ++ [.scalar ')']))) = true := by
  have opened : .scalar '(' ∉ d ++ .scalar ',' :: (name ++ [.scalar ')']) := by
    simpa [opening] using named.not_mem (by cases base <;> decide)
  exact other.not_follows_first opened

include named comma in
theorem indexes_within_iff (other : Base) :
    other.indexes (.scalar '(' :: (d ++ .scalar ',' :: (name ++ [.scalar ')']))) = true ↔
      (seq other.pattern blanks).endsIn (.scalar '(' :: d) = true ∧
        (seq blanks (seq index closing)).fitsFront (name ++ [.scalar ')']) = true := by
  have closed : .scalar ',' ∉ name ++ [.scalar ')'] := by
    simpa using named.not_mem (by cases base <;> decide)
  have opened : .scalar ',' ∉ .scalar '(' :: d := by simpa using comma
  exact other.indexes_iff opened closed

end

theorem index_of_address {name : List Rune} (named : addressRegister.Describes name) :
    index.Describes name := by
  have register : anyRegister.Describes name := by
    rcases describes_alt_iff.mp named with numbered | stack
    · obtain ⟨_, digit, letter, numeral, rfl⟩ := describes_seq_iff.mp numbered
      obtain ⟨r, folds, rfl⟩ := describes_one_iff.mp letter
      exact .left (.seq (.one (by rw [folds, Bool.true_or])) numeral)
    · exact .right stack
  rw [← List.append_nil name]
  exact .seq register (.left .nothing)

theorem endsIn_cons_iff {p : Pattern} {r : Rune} {text : List Rune} (avoided : p.avoids r = true) :
    p.endsIn (r :: text) = true ↔ p.endsIn text = true := by
  simp only [endsIn_iff]
  constructor
  · rintro ⟨before, s, hs, same⟩
    cases before with
    | nil =>
      obtain rfl : r :: text = s := same
      exact absurd List.mem_cons_self (hs.not_mem avoided)
    | cons x before => exact ⟨before, s, hs, (List.cons.inj same).2⟩
  · rintro ⟨before, s, hs, rfl⟩
    exact ⟨r :: before, s, hs, rfl⟩

/-- A displacement in parentheses is recognised if it is made of words and minus signs and does not
read as a base register. -/
theorem firstOf_within_iff {base : Base} {d name : List Rune} (named : base.pattern.Describes name)
    (opening : .scalar '(' ∉ d) (comma : .scalar ',' ∉ d) :
    firstOf forms (.scalar '(' :: (d ++ .scalar ',' :: (name ++ [.scalar ')']))) =
        base.displacedMode ↔
      (seq blanks (seq displacement blanks)).Describes d ∧
        (base = .address → ¬(seq addressRegister blanks).endsIn d = true) := by
  have closed {p : Pattern} (h : p.Describes name) :
      (seq blanks (seq p closing)).Describes (name ++ [.scalar ')']) :=
    describes_closed (List.forall_mem_nil _) (List.forall_mem_nil _) h
  have pairs := pairs_within_iff named opening comma
  have follows := not_follows_within named opening
  have indexes := indexes_within_iff named comma
  have tried : firstOf forms (.scalar '(' :: (d ++ .scalar ',' :: (name ++ [.scalar ')']))) = _ :=
    firstOf_comma (by simp)
  generalize .scalar '(' :: (d ++ .scalar ',' :: (name ++ [.scalar ')'])) = runes
    at pairs follows indexes tried ⊢
  have found (h : firstOf forms runes = base.displacedMode) :
      (seq blanks (seq displacement blanks)).Describes d := by
    rcases fits_of_displaced h with wrong | right
    · exact absurd wrong (follows base)
    · exact ((pairs base).mp right).1
  rw [tried, Base.firstOf_forms] at found ⊢
  cases base with
  | address =>
    have indexed : Base.address.indexes runes = true ↔
        (seq addressRegister blanks).endsIn d = true := by
      rw [indexes, Base.pattern, endsIn_cons_iff (by decide), and_iff_left]
      exact fitsFront_iff.mpr ⟨_, [], closed (index_of_address named), (List.append_nil _).symm⟩
    constructor
    · intro h
      refine ⟨found h, fun _ ends => ?_⟩
      rw [if_pos (indexed.mpr ends)] at h
      cases h
    · rintro ⟨described, apart⟩
      rw [if_neg (mt indexed.mp (apart rfl)), if_neg (follows _),
        if_pos ((pairs _).mpr ⟨described, closed named⟩)]
  | counter =>
    have unindexed (other : Base) : ¬other.indexes runes = true := by
      rw [indexes]
      exact fun h => counter_not_fitsFront (by decide) (by decide) (List.forall_mem_nil _) named _ h.2
    have unpaired : ¬Base.address.pairs runes = true := by
      rw [pairs]
      intro h
      refine counter_not_fitsFront (by decide) (by decide) (List.forall_mem_nil _) named _
        (fitsFront_iff.mpr ⟨_, [], h.2, (List.append_nil _).symm⟩)
    constructor
    · exact fun h => ⟨found h, nofun⟩
    · rintro ⟨described, -⟩
      rw [if_neg (unindexed _), if_neg (follows _), if_neg unpaired, Base.firstOf_forms,
        if_neg (unindexed _), if_neg (follows _),
        if_pos ((pairs _).mpr ⟨described, closed named⟩)]

/-! ### As bytes -/

/-- A byte of a name other than the dot. -/
def isWordByte (b : UInt8) : Bool := Expression.Item.isNameByte b && b != '.'.toUInt8

def isBlankByte (b : UInt8) : Bool := ['\t', '\n', '\x0c', '\r', ' '].any (·.toUInt8 == b)

def isPlainByte (b : UInt8) : Bool := b == '-'.toUInt8 || isWordByte b

/-- The runes of a class are the bytes of a class, apart from folded ones. -/
structure ByteClass (accepts : Rune → Bool) (holds : UInt8 → Bool) : Prop where
  ascii : ∀ b, holds b = true → b < 0x80
  rune : ∀ b, holds b = true → accepts (.ofByte b) = true
  byte : ∀ r, accepts r = true → isFolded r = false → ∃ b, holds b = true ∧ r = .ofByte b

namespace ByteClass

theorem of_ascii {accepts : Rune → Bool} {holds : UInt8 → Bool}
    (checked : ∀ n < 256, ((!holds (.ofNat n) || decide (UInt8.ofNat n < 0x80)) &&
      (!decide (UInt8.ofNat n < 0x80) || accepts (.ofByte (.ofNat n)) == holds (.ofNat n))) = true)
    (scalar : ∀ r, accepts r = true → isFolded r = false →
      ∃ c : Char, r = .scalar c ∧ c.toNat < 0x80) : ByteClass accepts holds := by
  have here := Bytes.forall_byte (p := fun b => (!holds b || decide (b < 0x80)) &&
    (!decide (b < 0x80) || accepts (.ofByte b) == holds b)) checked
  have ascii (b : UInt8) (h : holds b = true) : b < 0x80 := by
    simpa [h] using (Bool.and_eq_true_iff.mp (here b)).1
  have same (b : UInt8) (h : b < 0x80) : accepts (.ofByte b) = holds b := by
    simpa [h] using (Bool.and_eq_true_iff.mp (here b)).2
  refine ⟨ascii, fun b h => (same b (ascii b h)).trans h, fun r accepted plain => ?_⟩
  obtain ⟨c, rfl, small⟩ := scalar r accepted plain
  rw [← Rune.ofByte_toUInt8 small] at accepted ⊢
  exact ⟨_, (same _ (Rune.toUInt8_lt small)).symm.trans accepted, rfl⟩

variable {accepts : Rune → Bool} {holds : UInt8 → Bool} (h : ByteClass accepts holds)
include h

theorem accepts_ofBytes {text : Bytes} (all : ∀ b ∈ text, holds b = true) :
    ∀ r ∈ Rune.ofBytes text, accepts r = true := by
  rw [Rune.ofBytes_of_ascii fun b member => h.ascii b (all b member)]
  intro r member
  obtain ⟨b, inside, rfl⟩ := List.mem_map.mp member
  exact h.rune b (all b inside)

theorem ofBytes_append {text : Bytes} (all : ∀ b ∈ text, holds b = true) (rest : Bytes) :
    Rune.ofBytes (text ++ rest) = Rune.ofBytes text ++ Rune.ofBytes rest :=
  Rune.ofBytes_append_of_ascii (fun b member => h.ascii b (all b member)) rest

theorem holds_toBytes {runes : List Rune} (plain : Unfolded runes)
    (all : ∀ r ∈ runes, accepts r = true) : ∀ b ∈ runes.flatMap Rune.toBytes, holds b = true := by
  intro b member
  obtain ⟨r, inside, encoded⟩ := List.mem_flatMap.mp member
  obtain ⟨b', held, rfl⟩ := h.byte r (all r inside) (plain r inside)
  rw [Rune.toBytes_ofByte (h.ascii b' held)] at encoded
  exact List.mem_singleton.mp encoded ▸ held

end ByteClass

theorem byteClass_blank : ByteClass isBlank isBlankByte := by
  apply ByteClass.of_ascii (by decide +kernel)
  intro r blank plain
  obtain ⟨c, listed, same⟩ := List.any_eq_true.mp blank
  obtain rfl := beq_iff_eq.mp same
  have checked : (['\t', '\n', '\x0c', '\r', ' '].all fun c => c.toNat < 0x80) = true := by decide
  exact ⟨c, rfl, of_decide_eq_true (List.all_eq_true.mp checked c listed)⟩

theorem ascii_of_isWord {r : Rune} (word : isWord r = true) (plain : isFolded r = false) :
    ∃ c : Char, r = .scalar c ∧ c.toNat < 0x80 := by
  have folds {c : Char} (folds : foldsTo c r = true) (small : c.toNat < 0x80 ∧ c.toUpper.toNat < 0x80) :
      ∃ c : Char, r = .scalar c ∧ c.toNat < 0x80 := by
    rcases foldsTo_cases folds plain with rfl | rfl
    · exact ⟨_, rfl, small.1⟩
    · exact ⟨_, rfl, small.2⟩
  have between {low high : Char} (between : r.isBetween low high = true) (small : high.toNat < 0x80) :
      ∃ c : Char, r = .scalar c ∧ c.toNat < 0x80 := by
    cases r with
    | stray b => cases between
    | scalar c =>
      have below : c.toNat ≤ high.toNat := of_decide_eq_true (Bool.and_eq_true_iff.mp between).2
      exact ⟨c, rfl, by omega⟩
  simp only [isWord, Bool.or_eq_true] at word
  rcases word with ((((digit | lower) | upper) | line) | s) | k
  · exact between digit (by decide)
  · exact between lower (by decide)
  · exact between upper (by decide)
  · exact ⟨'_', beq_iff_eq.mp line, by decide⟩
  · exact folds s (by decide)
  · exact folds k (by decide)

theorem byteClass_word : ByteClass isWord isWordByte :=
  .of_ascii (by decide +kernel) fun _ => ascii_of_isWord

theorem byteClass_plain : ByteClass (fun r => r.isChar '-' || isWord r) isPlainByte := by
  apply ByteClass.of_ascii (by decide +kernel)
  intro r accepted plain
  rcases (Bool.or_eq_true _ _).mp accepted with minus | word
  · exact ⟨'-', beq_iff_eq.mp minus, by decide⟩
  · exact ascii_of_isWord word plain

def EndsWord (d : Bytes) : Prop := ∃ b ∈ d.getLast?, isWordByte b = true

/-- The text is minus signs and bytes of words, with blanks around them. -/
def IsPlain (d : Bytes) : Prop :=
  ∃ front core back, d = front ++ (core ++ back) ∧ (∀ b ∈ front, isBlankByte b = true) ∧
    core ≠ [] ∧ (∀ b ∈ core, isPlainByte b = true) ∧ ∀ b ∈ back, isBlankByte b = true

/-- The text ends in the name of an address register and blanks. -/
def EndsAddress (d : Bytes) : Prop :=
  ∃ front name back, d = front ++ (name ++ back) ∧ name ∈ addressNames ∧
    ∀ b ∈ back, isBlankByte b = true

section

variable {d : Bytes} (plain : Unfolded (Rune.ofBytes d))
include plain

theorem endsIn_word_iff : (one isWord).endsIn (Rune.ofBytes d) = true ↔ EndsWord d := by
  simp only [endsIn_iff, describes_one_iff]
  constructor
  · rintro ⟨before, _, ⟨r, word, rfl⟩, same⟩
    rw [same] at plain
    obtain ⟨b, held, rfl⟩ := byteClass_word.byte r word (plain r List.mem_concat_self)
    have bytes := Rune.eq_flatMap_of_ofBytes same
    rw [List.flatMap_append, List.flatMap_singleton,
      Rune.toBytes_ofByte (byteClass_word.ascii b held)] at bytes
    exact ⟨b, by rw [bytes, List.getLast?_concat]; rfl, held⟩
  · rintro ⟨b, last, held⟩
    obtain ⟨front, rfl⟩ := List.getLast?_eq_some_iff.mp last
    have ascii : ∀ c ∈ [b], c < 0x80 := List.forall_mem_singleton.mpr (byteClass_word.ascii b held)
    refine ⟨Rune.ofBytes front, _, ⟨.ofByte b, byteClass_word.rune b held, rfl⟩, ?_⟩
    rw [Rune.ofBytes_append_ascii front (byteClass_word.ascii b held),
      Rune.ofBytes_of_ascii ascii, List.map_singleton]

theorem describes_plain_iff :
    (seq blanks (seq displacement blanks)).Describes (Rune.ofBytes d) ↔ IsPlain d := by
  simp only [describes_seq_iff, blanks, displacement, describes_many_iff, describes_one_iff]
  constructor
  · rintro ⟨front, _, blank, ⟨_, back, ⟨_, rest, ⟨r, first, rfl⟩, others, rfl⟩, blank', rfl⟩, same⟩
    rw [same] at plain
    obtain ⟨plainFront, plainRest⟩ := List.forall_mem_append.mp plain
    obtain ⟨plainCore, plainBack⟩ := List.forall_mem_append.mp plainRest
    have bytes := Rune.eq_flatMap_of_ofBytes same
    rw [List.flatMap_append, List.flatMap_append] at bytes
    refine ⟨_, _, _, bytes, byteClass_blank.holds_toBytes plainFront blank, ?_,
      byteClass_plain.holds_toBytes plainCore (List.forall_mem_cons.mpr ⟨first, others⟩),
      byteClass_blank.holds_toBytes plainBack blank'⟩
    obtain ⟨b, held, rfl⟩ := byteClass_plain.byte r first (plainCore r List.mem_cons_self)
    rw [List.cons_append, List.flatMap_cons, Rune.toBytes_ofByte (byteClass_plain.ascii b held)]
    exact List.cons_ne_nil _ _
  · rintro ⟨front, core, back, rfl, blank, filled, inside, blank'⟩
    obtain ⟨b, core, rfl⟩ := List.exists_cons_of_ne_nil filled
    have all := byteClass_plain.accepts_ofBytes inside
    rw [Rune.ofBytes_of_ascii fun b member => byteClass_plain.ascii b (inside b member)] at all
    obtain ⟨first, others⟩ := List.forall_mem_cons.mp all
    refine ⟨_, _, byteClass_blank.accepts_ofBytes blank,
      ⟨_, _, ⟨[.ofByte b], _, ⟨_, first, rfl⟩, others, rfl⟩, byteClass_blank.accepts_ofBytes blank',
        rfl⟩, ?_⟩
    rw [byteClass_blank.ofBytes_append blank, byteClass_plain.ofBytes_append inside,
      Rune.ofBytes_of_ascii fun b member => byteClass_plain.ascii b (inside b member)]
    rfl

theorem endsIn_address_iff :
    (seq addressRegister blanks).endsIn (Rune.ofBytes d) = true ↔ EndsAddress d := by
  simp only [endsIn_iff, describes_seq_iff]
  constructor
  · rintro ⟨front, _, ⟨name, back, named, blank, rfl⟩, same⟩
    rw [same] at plain
    obtain ⟨-, plainRest⟩ := List.forall_mem_append.mp plain
    obtain ⟨plainName, plainBack⟩ := List.forall_mem_append.mp plainRest
    have bytes := Rune.eq_flatMap_of_ofBytes same
    rw [List.flatMap_append, List.flatMap_append] at bytes
    exact ⟨_, _, _, bytes, lists_addressRegister.mem named plainName,
      byteClass_blank.holds_toBytes plainBack (describes_many_iff.mp blank)⟩
  · rintro ⟨front, name, back, rfl, named, blank⟩
    refine ⟨Rune.ofBytes front, _, ⟨_, _, lists_addressRegister.describes name named,
      .many (byteClass_blank.accepts_ofBytes blank), rfl⟩, ?_⟩
    exact lists_addressRegister.ofBytes_append (by decide) named front back

end

section

variable {base : Base} {d name : Bytes} (named : name ∈ base.names)
  (plain : Unfolded (Rune.ofBytes d)) (opening : '('.toUInt8 ∉ d) (comma : ','.toUInt8 ∉ d)
include named

theorem ofBytes_closed :
    Rune.ofBytes (name ++ [')'.toUInt8]) = Rune.ofBytes name ++ [.scalar ')'] :=
  Rune.ofBytes_append_of_ascii (lt_of_mem_reservedNames (Base.mem_reservedNames named)) _

include plain opening comma

theorem ofOperand_before_iff :
    ofOperand (d ++ '('.toUInt8 :: (name ++ [')'.toUInt8])) = base.displacedMode ↔ EndsWord d := by
  have opening := scalar_notMem_ofBytes opening (by decide)
  have comma := scalar_notMem_ofBytes comma (by decide)
  rw [ofOperand_eq, Rune.ofBytes_append_ascii d (by decide),
    Rune.ofBytes_char (by decide) (by decide), ofBytes_closed named,
    firstOf_before_iff (base.lists.describes name named) opening comma, endsIn_word_iff plain]

theorem ofOperand_within_iff :
    ofOperand ('('.toUInt8 :: (d ++ ','.toUInt8 :: (name ++ [')'.toUInt8]))) =
        base.displacedMode ↔ IsPlain d ∧ (base = .address → ¬EndsAddress d) := by
  have opening := scalar_notMem_ofBytes opening (by decide)
  have comma := scalar_notMem_ofBytes comma (by decide)
  rw [ofOperand_eq, Rune.ofBytes_char (by decide) (by decide),
    Rune.ofBytes_append_ascii d (by decide), Rune.ofBytes_char (by decide) (by decide),
    ofBytes_closed named, firstOf_within_iff (base.lists.describes name named) opening comma,
    describes_plain_iff plain, endsIn_address_iff plain]

end

/-! ### The two spellings -/

theorem argumentKind_closed {text : Bytes} (closed : ')'.toUInt8 ∈ text)
    (unquoted : Expression.Unquoted text) :
    Token.argumentKind text = .operand (some (ofOperand text)) := by
  unfold Token.argumentKind Token.plainKind
  cases text with
  | nil => rfl
  | cons b rest =>
    have unmarked : Lexeme.Scan.isQuoteMark b = false := by
      have single : b ≠ '\''.toUInt8 := fun same => unquoted.1 (same ▸ List.mem_cons_self)
      have double : b ≠ '"'.toUInt8 := fun same => unquoted.2 (same ▸ List.mem_cons_self)
      simp [Lexeme.Scan.isQuoteMark, single, double]
    rcases List.mem_cons.mp closed with rfl | inside
    · rfl
    · have counter : rest ≠ ['@'.toUInt8] := by
        rintro rfl
        cases List.mem_singleton.mp inside
      have digits : rest.all Bytes.isDigit = false :=
        List.all_eq_false.mpr ⟨_, inside, by decide⟩
      simp [unmarked, counter, digits]

/-- The operand that a piece of a line is. -/
def argument (l : Lexeme) : Operand := (Token.mk l (Token.argumentKind l.text)).operand

theorem alike_argument {base : Base} {l l' : Lexeme}
    (kind : Token.argumentKind l.text = .operand (some base.displacedMode))
    (kind' : Token.argumentKind l'.text = .operand (some base.displacedMode)) :
    Operand.Alike (argument l) (argument l') := by
  have known {l : Lexeme} (kind : Token.argumentKind l.text = .operand (some base.displacedMode)) :
      (argument l).kind = .address base.displacedMode none := by
    rw [argument, kind]
    cases base <;> rfl
  exact .address (known kind) (known kind') (by cases base <;> decide)

theorem unquoted_closed {name : Bytes} (named : name ∈ reservedNames) :
    Expression.Unquoted (name ++ [')'.toUInt8]) := by
  have checked : reservedNames.all (fun name => decide (Expression.Unquoted name)) = true := by
    decide +kernel
  have here := of_decide_eq_true (List.all_eq_true.mp checked name named)
  exact here.append (by decide)

/-- A displacement that has a value is recognised before the parentheses if it ends in a byte of a
word. In the parentheses it has to be words and minus signs, and with an address register as base it
may not end like one. Where both hold, it makes no difference which way it is written. -/
theorem displacement_spellings {base : Base} {symbols : Bytes → Option Int64} {d name : Bytes}
    {v : Int64} (named : name ∈ base.names) (accepted : Expression.evaluate symbols d = .ok v)
    (unquoted : Expression.Unquoted d) (opening : '('.toUInt8 ∉ d) (comma : ','.toUInt8 ∉ d) :
    let before := d ++ '('.toUInt8 :: (name ++ [')'.toUInt8])
    let within := '('.toUInt8 :: (d ++ ','.toUInt8 :: (name ++ [')'.toUInt8]))
    (ofOperand before = base.displacedMode ↔ EndsWord d) ∧
    (ofOperand within = base.displacedMode ↔ IsPlain d ∧ (base = .address → ¬EndsAddress d)) ∧
    (EndsWord d → IsPlain d → (base = .address → ¬EndsAddress d) →
      ∀ (statement : Statement) (left right : List Operand) (l l' : Lexeme),
        statement.kind = .instruction → l.text = before → l'.text = within →
        let spelled := fun l => { statement with operands := left ++ argument l :: right }
        ∀ known, (spelled l).length known = (spelled l').length known ∧
          (spelled l).times? known = (spelled l').times? known) := by
  intro before within
  have plain := unfolded_of_evaluate accepted unquoted
  have first := ofOperand_before_iff named plain opening comma
  have second := ofOperand_within_iff named plain opening comma
  refine ⟨first, second, ?_⟩
  intro ends words apart statement left right l l' instruction text text' spelled known
  have closed := unquoted_closed (Base.mem_reservedNames named)
  have kind : Token.argumentKind before = .operand (some base.displacedMode) := by
    rw [← first.mpr ends]
    exact argumentKind_closed (by simp [before]) (unquoted.append (closed.cons (by decide)))
  have kind' : Token.argumentKind within = .operand (some base.displacedMode) := by
    rw [← second.mpr ⟨words, apart⟩]
    exact argumentKind_closed (by simp [within])
      ((unquoted.append (closed.cons (by decide))).cons (by decide))
  have alike : List.Forall₂ Operand.Alike (spelled l).operands (spelled l').operands := by
    have others (operands : List Operand) : List.Forall₂ Operand.Alike operands operands :=
      List.forall₂_same.mpr fun operand _ => .refl operand
    exact List.rel_append (others left)
      (.cons (alike_argument (text ▸ kind) (text' ▸ kind')) (others right))
  have opcode : (spelled l).opcode = (spelled l').opcode := rfl
  exact ⟨Statement.length_alike opcode alike known instruction,
    Statement.times?_alike opcode alike known⟩

/-- Minus signs are recognised in both places. -/
theorem displacement_spellings_minus :
    let symbols := fun name => if name = Bytes.ofString "tab" then some 5 else none
    let d := Bytes.ofString "-tab-2"
    let move := Statement.ofLine (Bytes.ofString " move.w -tab-2(A3),d0")
    let spelled := fun l => { move with operands := [] ++ argument l :: move.operands.tail }
    Bytes.ofString "A3" ∈ Base.address.names ∧ Expression.evaluate symbols d = .ok (-7) ∧
      Expression.Unquoted d ∧ '('.toUInt8 ∉ d ∧ ','.toUInt8 ∉ d ∧
      EndsWord d ∧ IsPlain d ∧ ¬EndsAddress d ∧ move.kind = .instruction ∧
      ∀ known,
        (spelled ⟨8, Bytes.ofString "-tab-2(A3)", false⟩).length known =
          (spelled ⟨8, Bytes.ofString "(-tab-2,A3)", false⟩).length known ∧
        (spelled ⟨8, Bytes.ofString "-tab-2(A3)", false⟩).times? known =
          (spelled ⟨8, Bytes.ofString "(-tab-2,A3)", false⟩).times? known := by
  intro symbols d move spelled
  have named : Bytes.ofString "A3" ∈ Base.address.names := by decide +kernel
  have accepted : Expression.evaluate symbols d = .ok (-7) := by decide +kernel
  have unquoted : Expression.Unquoted d := by decide +kernel
  have opening : '('.toUInt8 ∉ d := by decide +kernel
  have comma : ','.toUInt8 ∉ d := by decide +kernel
  have kind : move.kind = .instruction := by decide +kernel
  obtain ⟨first, second, same⟩ := displacement_spellings named accepted unquoted opening comma
  have ends := first.mp (by decide +kernel)
  obtain ⟨words, apart⟩ := second.mp (by decide +kernel)
  exact ⟨named, accepted, unquoted, opening, comma, ends, words, apart rfl, kind,
    same ends words apart move [] move.operands.tail ⟨8, Bytes.ofString "-tab-2(A3)", false⟩
      ⟨8, Bytes.ofString "(-tab-2,A3)", false⟩ kind (by decide +kernel) (by decide +kernel)⟩

/-- A hexadecimal number is recognised before the parentheses and not in them. -/
theorem ofOperand_hexadecimal :
    Expression.evaluate (fun _ => none) (Bytes.ofString "$10") = .ok 16 ∧
      Expression.mentions (Bytes.ofString "$10") = [] ∧
      ofOperand (Bytes.ofString "$10(a0)") = .displaced ∧
      ofOperand (Bytes.ofString "($10,a0)") = .absLong := by
  decide +kernel

end Asm68k.Mode
