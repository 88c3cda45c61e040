import Asm68k.Proofs.Expression.Characters
import Asm68k.Proofs.Mode.Forms

/-!
Names of registers, in either case of letters, as bytes and as what the parts of operands describe.
-/

namespace Asm68k.Mode

open Pattern

/-! ### Names -/

/-- The lower case name in every mixture of cases. -/
def spellings (name : String) : List Bytes :=
  name.toList.foldr
    (fun c texts => [c, c.toUpper].eraseDups.flatMap fun c => texts.map (c.toUInt8 :: ·)) [[]]

def dataNames : List Bytes := ["d0", "d1", "d2", "d3", "d4", "d5", "d6", "d7"].flatMap spellings

def addressNames : List Bytes :=
  ["a0", "a1", "a2", "a3", "a4", "a5", "a6", "a7", "sp"].flatMap spellings

def registerNames : List Bytes := dataNames ++ addressNames

def counterNames : List Bytes := spellings "pc"

def Base.names : Base → List Bytes
  | .address => addressNames
  | .counter => counterNames

/-- The names that an operand may not have for a symbol. -/
def reservedNames : List Bytes :=
  registerNames ++ counterNames ++ ["ccr", "sr", "usp"].flatMap spellings

/-- The sizes of an index register, or none. -/
def sizeSuffixes : List Bytes := ["", ".w", ".l"].flatMap spellings

section

variable {name : Bytes}

theorem lt_of_mem_reservedNames (named : name ∈ reservedNames) : ∀ b ∈ name, b < 0x80 := by
  have checked : reservedNames.all (·.all (· < 0x80)) = true := by decide +kernel
  have here := List.all_eq_true.mp (List.all_eq_true.mp checked name named)
  exact fun b member => of_decide_eq_true (here b member)

theorem Base.mem_reservedNames {base : Base} (named : name ∈ base.names) :
    name ∈ reservedNames := by
  cases base with
  | address => exact List.mem_append_left _ (List.mem_append_left _ (List.mem_append_right _ named))
  | counter => exact List.mem_append_left _ (List.mem_append_right _ named)

end

theorem scalar_notMem_ofBytes {c : Char} {text : Bytes} (absent : c.toUInt8 ∉ text)
    (encoded : c.toUInt8 ∈ String.utf8EncodeChar c) : .scalar c ∉ Rune.ofBytes text :=
  fun member => absent (Rune.mem_of_mem_ofBytes member _ encoded)

/-! ### What the parts describe -/

/-- A rune that folds to a letter of which it is not one of the two cases. -/
def isFolded (r : Rune) : Bool := r.isChar '\u017F' || r.isChar '\u212A'

def Unfolded (runes : List Rune) : Prop := ∀ r ∈ runes, isFolded r = false

theorem unfolded_of_evaluate {symbols : Bytes → Option Int64} {text : Bytes} {v : Int64}
    (accepted : Expression.evaluate symbols text = .ok v) (unquoted : Expression.Unquoted text) :
    Unfolded (Rune.ofBytes text) := by
  intro r member
  rw [Bool.eq_false_iff]
  intro folded
  have ascii : (r.isSpace || r.toBytes.all fun b => decide (b < 0x80)) = true := by
    simpa using Expression.ascii_of_evaluate accepted unquoted r member
  rcases (Bool.or_eq_true _ _).mp folded with same | same
  all_goals
    obtain rfl := beq_iff_eq.mp same
    revert ascii
    decide

/-- The pattern describes the names, and nothing else that has no folded runes. -/
structure Lists (p : Pattern) (names : List Bytes) : Prop where
  ascii : ∀ name ∈ names, ∀ b ∈ name, b < 0x80
  describes : ∀ name ∈ names, p.Describes (Rune.ofBytes name)
  mem : ∀ ⦃text⦄, p.Describes text → Unfolded text → text.flatMap Rune.toBytes ∈ names

namespace Lists

variable {p q : Pattern} {names names' : List Bytes}

theorem one {accepts : Rune → Bool} (chars : List Char)
    (checked : (chars.all fun c => decide (c.toNat < 0x80) && accepts (.scalar c)) = true)
    (only : ∀ r, accepts r = true → isFolded r = false → ∃ c ∈ chars, r = .scalar c) :
    Lists (.one accepts) (chars.map fun c => [c.toUInt8]) := by
  have each {c : Char} (member : c ∈ chars) : c.toNat < 0x80 ∧ accepts (.scalar c) = true := by
    simpa using List.all_eq_true.mp checked c member
  constructor
  case ascii =>
    intro name listed
    obtain ⟨c, member, rfl⟩ := List.mem_map.mp listed
    exact List.forall_mem_singleton.mpr (Rune.toUInt8_lt (each member).1)
  case describes =>
    intro name listed
    obtain ⟨c, member, rfl⟩ := List.mem_map.mp listed
    obtain ⟨small, accepted⟩ := each member
    rw [Rune.ofBytes_char (Rune.toUInt8_lt small) (Rune.toNat_toUInt8 small)]
    exact .one accepted
  case mem =>
    intro text described plain
    obtain ⟨r, ok, rfl⟩ := describes_one_iff.mp described
    obtain ⟨c, member, rfl⟩ := only r ok (plain r List.mem_cons_self)
    obtain ⟨small, -⟩ := each member
    rw [List.flatMap_singleton, ← Rune.ofByte_toUInt8 small,
      Rune.toBytes_ofByte (Rune.toUInt8_lt small)]
    exact List.mem_map_of_mem member

theorem seq (h : Lists p names) (h' : Lists q names') :
    Lists (.seq p q) (names.flatMap fun name => names'.map (name ++ ·)) where
  ascii := by
    intro name listed
    obtain ⟨first, named, rest⟩ := List.mem_flatMap.mp listed
    obtain ⟨second, named', rfl⟩ := List.mem_map.mp rest
    exact List.forall_mem_append.mpr ⟨h.ascii first named, h'.ascii second named'⟩
  describes := by
    intro name listed
    obtain ⟨first, named, rest⟩ := List.mem_flatMap.mp listed
    obtain ⟨second, named', rfl⟩ := List.mem_map.mp rest
    rw [Rune.ofBytes_append_of_ascii (h.ascii first named)]
    exact .seq (h.describes first named) (h'.describes second named')
  mem := by
    intro text described plain
    obtain ⟨s, t, hs, ht, rfl⟩ := describes_seq_iff.mp described
    obtain ⟨left, right⟩ := List.forall_mem_append.mp plain
    rw [List.flatMap_append]
    exact List.mem_flatMap.mpr ⟨_, h.mem hs left, List.mem_map_of_mem (h'.mem ht right)⟩

theorem alt (h : Lists p names) (h' : Lists q names') : Lists (.alt p q) (names ++ names') where
  ascii := List.forall_mem_append.mpr ⟨h.ascii, h'.ascii⟩
  describes := List.forall_mem_append.mpr
    ⟨fun name named => .left (h.describes name named),
      fun name named => .right (h'.describes name named)⟩
  mem := by
    intro text described plain
    rcases describes_alt_iff.mp described with left | right
    · exact List.mem_append_left _ (h.mem left plain)
    · exact List.mem_append_right _ (h'.mem right plain)

theorem of_iff (h : Lists p names) (same : ∀ name, name ∈ names ↔ name ∈ names') :
    Lists p names' where
  ascii := fun name named => h.ascii name ((same name).mpr named)
  describes := fun name named => h.describes name ((same name).mpr named)
  mem := fun _ described plain => (same _).mp (h.mem described plain)

theorem congr (h : Lists p names)
    (same : (names.all names'.contains && names'.all names.contains) = true) : Lists p names' := by
  obtain ⟨inside, outside⟩ := Bool.and_eq_true_iff.mp same
  refine h.of_iff fun name => ⟨fun named => ?_, fun named => ?_⟩
  · exact List.contains_iff_mem.mp (List.all_eq_true.mp inside name named)
  · exact List.contains_iff_mem.mp (List.all_eq_true.mp outside name named)

theorem ofBytes_append (h : Lists p names) (filled : p.canBeEmpty = false) {name : Bytes}
    (named : name ∈ names) (before after : Bytes) :
    Rune.ofBytes (before ++ (name ++ after)) =
      Rune.ofBytes before ++ (Rune.ofBytes name ++ Rune.ofBytes after) := by
  have ascii := h.ascii name named
  have described := h.describes name named
  cases name with
  | nil => exact absurd described.canBeEmpty (by simp [filled])
  | cons b rest =>
    rw [List.cons_append, Rune.ofBytes_append_ascii before (ascii b List.mem_cons_self),
      ← List.cons_append, Rune.ofBytes_append_of_ascii ascii]

end Lists

theorem foldsTo_cases {c : Char} {r : Rune} (folds : foldsTo c r = true)
    (plain : isFolded r = false) : r = .scalar c ∨ r = .scalar c.toUpper := by
  simp only [foldsTo, isFolded, Bool.or_eq_true, Bool.and_eq_true, Bool.or_eq_false_iff,
    Rune.isChar, beq_iff_eq, beq_eq_false_iff_ne] at folds plain
  rcases folds with ((same | same) | ⟨-, same⟩) | ⟨-, same⟩
  · exact .inl same
  · exact .inr same
  · exact absurd same plain.1
  · exact absurd same plain.2

theorem lists_letter {c : Char} (small : c.toNat < 0x80 ∧ c.toUpper.toNat < 0x80) :
    Lists (letter c) [[c.toUInt8], [c.toUpper.toUInt8]] := by
  apply Lists.one [c, c.toUpper]
  · simp [foldsTo, Rune.isChar, small]
  · intro r folds plain
    rcases foldsTo_cases folds plain with rfl | rfl
    · exact ⟨c, by simp, rfl⟩
    · exact ⟨c.toUpper, by simp, rfl⟩

theorem lists_word (name : String)
    (small : (name.toList.all fun c => c.toNat < 0x80 ∧ c.toUpper.toNat < 0x80) = true) :
    Lists (word name) (spellings name) := by
  unfold word spellings
  generalize name.toList = cs at small
  induction cs with
  | nil =>
    constructor
    · simp
    · simp [chain, describes_nothing_iff, show Rune.ofBytes [] = [] from rfl]
    · intro text described _
      rw [describes_nothing_iff.mp described]
      exact List.mem_singleton_self []
  | cons c cs ih =>
    obtain ⟨here, others⟩ := Bool.and_eq_true_iff.mp small
    have first := of_decide_eq_true here
    cases cs with
    | nil =>
      refine (lists_letter first).of_iff fun name => ?_
      simp [List.mem_eraseDups]
    | cons c' cs =>
      refine ((lists_letter first).seq (ih others)).of_iff fun name => ?_
      simp [List.mem_eraseDups]

theorem lists_digit : Lists registerDigit ((Bytes.ofString "01234567").map ([·])) := by
  apply Lists.one ['0', '1', '2', '3', '4', '5', '6', '7'] (by decide)
  intro r between plain
  cases r with
  | stray b => cases between
  | scalar c =>
    simp only [Rune.isBetween, Bool.and_eq_true, decide_eq_true_eq] at between
    have low : 48 ≤ c.toNat := between.1
    have high : c.toNat ≤ 55 := between.2
    refine ⟨c, ?_, rfl⟩
    rw [← Char.ofNat_toNat c]
    generalize c.toNat = n at low high
    obtain rfl | rfl | rfl | rfl | rfl | rfl | rfl | rfl :
      n = 48 ∨ n = 49 ∨ n = 50 ∨ n = 51 ∨ n = 52 ∨ n = 53 ∨ n = 54 ∨ n = 55 := by omega
    all_goals decide

/-! ### Registers -/

theorem lists_dataRegister : Lists dataRegister dataNames :=
  ((lists_letter (by decide)).seq lists_digit).congr (by decide +kernel)

theorem lists_addressRegister : Lists addressRegister addressNames :=
  (((lists_letter (by decide)).seq lists_digit).alt (lists_word "sp" (by decide))).congr (by decide +kernel)

theorem lists_anyRegister : Lists anyRegister registerNames := by
  have letter : Lists (.one fun r => foldsTo 'a' r || foldsTo 'd' r)
      (['a', 'A', 'd', 'D'].map fun c => [c.toUInt8]) := by
    apply Lists.one _ (by decide)
    intro r folds plain
    rcases (Bool.or_eq_true _ _).mp folds with folds | folds
    · rcases foldsTo_cases folds plain with rfl | rfl
      · exact ⟨'a', by decide, rfl⟩
      · exact ⟨'A', by decide, rfl⟩
    · rcases foldsTo_cases folds plain with rfl | rfl
      · exact ⟨'d', by decide, rfl⟩
      · exact ⟨'D', by decide, rfl⟩
  exact ((letter.seq lists_digit).alt (lists_word "sp" (by decide))).congr (by decide +kernel)

theorem Base.lists (base : Base) : Lists base.pattern base.names := by
  cases base with
  | address => exact lists_addressRegister
  | counter => exact lists_word "pc" (by decide)

end Asm68k.Mode
