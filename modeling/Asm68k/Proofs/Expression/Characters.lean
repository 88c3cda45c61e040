import Asm68k.Proofs.Expression.Acceptance

/-!
The characters of a text that has a value. Where nothing is quoted they are ASCII, apart from white
space around the expression.
-/

namespace Asm68k

theorem Bytes.mem_trim {text : Bytes} {r : Rune} (member : r ∈ Rune.ofBytes text) :
    r.isSpace = true ∨ ∀ b ∈ r.toBytes, b ∈ trim text := by
  by_cases space : r.isSpace = true
  · exact .inl space
  have kept {runes : List Rune} (inside : r ∈ runes) : r ∈ runes.dropWhile Rune.isSpace := by
    rw [← List.takeWhile_append_dropWhile (p := Rune.isSpace) (l := runes)] at inside
    rcases List.mem_append.mp inside with front | back
    · exact absurd (List.all_eq_true.mp List.all_takeWhile r front) space
    · exact back
  refine .inr fun b encoded => List.mem_flatMap.mpr ⟨r, ?_, encoded⟩
  exact List.mem_reverse.mpr (kept (List.mem_reverse.mpr (kept member)))

theorem Bytes.trim_subset (text : Bytes) : trim text ⊆ text := by
  obtain ⟨before, after, whole, -, -⟩ := exists_trim text
  intro b member
  have inside : b ∈ before ++ (trim text ++ after) :=
    List.mem_append_right _ (List.mem_append_left _ member)
  rwa [← whole] at inside

namespace Expression

/-- The text has no quotation mark of either kind. -/
def Unquoted (text : Bytes) : Prop := '\''.toUInt8 ∉ text ∧ '"'.toUInt8 ∉ text

instance : DecidablePred Unquoted := fun _ => inferInstanceAs (Decidable (_ ∧ _))

theorem Unquoted.of_subset {text text' : Bytes} (unquoted : Unquoted text) (within : text' ⊆ text) :
    Unquoted text' :=
  ⟨fun member => unquoted.1 (within member), fun member => unquoted.2 (within member)⟩

theorem Unquoted.append {text text' : Bytes} (unquoted : Unquoted text) (unquoted' : Unquoted text') :
    Unquoted (text ++ text') := by
  simp [Unquoted, unquoted.1, unquoted.2, unquoted'.1, unquoted'.2]

theorem Unquoted.cons {b : UInt8} {text : Bytes} (other : b ≠ '\''.toUInt8 ∧ b ≠ '"'.toUInt8)
    (unquoted : Unquoted text) : Unquoted (b :: text) := by
  simp [Unquoted, other.1.symm, other.2.symm, unquoted.1, unquoted.2]

theorem ascii_of_isNameByte {text : Bytes} (names : ∀ b ∈ text, Item.isNameByte b = true) :
    ∀ b ∈ text, b < 0x80 := fun b member => (isInk_of_isNameByte (names b member)).1.2

theorem Literal.ascii {v : Int64} {text : Bytes} (spelled : Literal v text)
    (unquoted : Unquoted text) : ∀ b ∈ text, b < 0x80 := by
  cases spelled with
  | @number mark base text n radix numeral =>
    have marks : ∀ radix ∈ radices, radix.1.all (· < 0x80) = true := by decide
    have digits := ascii_of_isNameByte fun b member =>
      Item.isNameByte_of_isDigitOf (numeral.isDigitOf b member)
    refine List.forall_mem_append.mpr ⟨fun b member => ?_, digits⟩
    exact of_decide_eq_true (List.all_eq_true.mp (marks _ radix) b member)
  | quoted quote least most inner =>
    rcases quote with rfl | rfl
    · exact absurd List.mem_cons_self unquoted.1
    · exact absurd List.mem_cons_self unquoted.2

theorem Spelled.ascii {item : Item} {text : Bytes} (spelled : Spelled item text)
    (unquoted : Unquoted text) : ∀ b ∈ text, b < 0x80 := by
  cases spelled with
  | literal literal => exact literal.ascii unquoted
  | symbol isName =>
    obtain ⟨b, rest, rfl, start, inside⟩ := isName
    refine ascii_of_isNameByte (List.forall_mem_cons.mpr ⟨?_, inside⟩)
    rw [Item.isNameByte, start, Bool.true_or]
  | unary op => cases op <;> exact List.forall_mem_singleton.mpr (by decide)
  | @binary op _ member =>
    have signs : op.signs.all (·.all (· < 0x80)) = true := by cases op <;> decide
    have here := List.all_eq_true.mp (List.all_eq_true.mp signs text member)
    exact fun b member => of_decide_eq_true (here b member)
  | opening | closing => exact List.forall_mem_singleton.mpr (by decide)

theorem Spells.ascii {items : List Item} {text : Bytes} (spells : Spells items text)
    (unquoted : Unquoted text) : ∀ b ∈ text, b < 0x80 := by
  induction spells with
  | nil blank => exact fun b member => (blank b member).ascii
  | cons blank spelled apart others ih =>
    refine List.forall_mem_append.mpr ⟨fun b member => (blank b member).ascii, ?_⟩
    refine List.forall_mem_append.mpr ⟨spelled.ascii ?_, ih ?_⟩
    · exact unquoted.of_subset fun b member =>
        List.mem_append_right _ (List.mem_append_left _ member)
    · exact unquoted.of_subset fun b member =>
        List.mem_append_right _ (List.mem_append_right _ member)

theorem bare_cases (text : Bytes) :
    bare text = text.trim ∨ text.trim = '#'.toUInt8 :: bare text := by
  unfold bare
  split
  · rename_i empty
    exact .inl empty.symm
  · rename_i b rest trimmed
    rw [trimmed]
    split
    · rename_i sign
      exact .inr (by rw [sign])
    · exact .inl rfl

theorem bare_subset (text : Bytes) : bare text ⊆ text := by
  have trimmed := Bytes.trim_subset text
  rcases bare_cases text with same | marked
  · rw [same]
    exact trimmed
  · rw [marked] at trimmed
    exact fun b member => trimmed (List.mem_cons_of_mem _ member)

/-- Without quotations all is ASCII but the white space around the expression. -/
theorem ascii_of_evaluate {symbols : Bytes → Option Int64} {text : Bytes} {v : Int64}
    (accepted : evaluate symbols text = .ok v) (unquoted : Unquoted text) :
    ∀ r ∈ Rune.ofBytes text, r.isSpace = true ∨ ∀ b ∈ r.toBytes, b < 0x80 := by
  obtain ⟨program, compiled⟩ := compile_of_evaluate accepted
  have spells := (Item.spells_readFrom false (bare text) (compile_good compiled)).1
  intro r member
  have body := spells.ascii (unquoted.of_subset (bare_subset text))
  refine (Bytes.mem_trim member).imp id fun inside b encoded => ?_
  have trimmed : ∀ b ∈ text.trim, b < 0x80 := by
    rcases bare_cases text with same | marked
    · rw [← same]
      exact body
    · rw [marked]
      exact List.forall_mem_cons.mpr ⟨by decide, body⟩
  exact trimmed b (inside b encoded)

end Expression

end Asm68k
