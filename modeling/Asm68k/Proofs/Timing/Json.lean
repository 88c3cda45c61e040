import Asm68k.Proofs.Json
import Asm68k.Timing.Json

/-!
Times as JSON. What is written for a time is read back as that time, and so it is with any blanks
between the pieces of the text; an array of other integers is read as what its first three items say:
`ofJson?_spaced`.
-/

namespace Asm68k.Timing

open Json

/-! ### Writing -/

/-- The components as the items of an array. -/
def items (t : Timing) : List (Option Int) :=
  [some t.clock.toInt, some t.read.toInt, some t.write.toInt]

theorem render_compact (t : Timing) :
    t.toJson.render .compact = (arrayPieces t.items).flatten := by
  simp [toJson, Value.render, Value.write, Value.writeItems, separator, Layout.lineBreak, items,
    arrayPieces, laterPieces, itemText, Decimal.ofInt64]

theorem isBlank_of_mem_lineBreak {layout : Layout} {depth : Nat} {b : UInt8}
    (member : b ∈ layout.lineBreak depth) : isBlank b = true := by
  cases layout with
  | compact => cases member
  | indented =>
    rcases List.mem_cons.mp member with rfl | blank
    · rfl
    · rw [List.eq_of_mem_replicate blank]
      rfl

/-- The layout of a written time shows in its blanks only. -/
theorem spaced_render (t : Timing) (layout : Layout) :
    Spaced (arrayPieces t.items) (t.toJson.render layout) := by
  have none : ∀ b ∈ ([] : Bytes), isBlank b = true := List.forall_mem_nil _
  have broken (depth : Nat) : ∀ b ∈ layout.lineBreak depth, isBlank b = true :=
    fun _ => isBlank_of_mem_lineBreak
  have spaced : Spaced (arrayPieces t.items) _ :=
    .cons none (.cons (broken 1) (.cons none (.cons (broken 1) (.cons none (.cons (broken 1)
      (.cons (broken 0) (.nil none)))))))
  simpa [toJson, Value.render, Value.write, Value.writeItems, separator, itemText,
    Decimal.ofInt64] using spaced

/-! ### Reading -/

/-- The item that a component is read from; where it is null or missing, zero. -/
def componentAt (items : List (Option Int)) (i : Nat) : Int := (items[i]?.getD none).getD 0

theorem component?_itemForm (item : Option Int) :
    component? (itemForm item) = (Decimal.inRange (item.getD 0)).toOption := by
  cases item with
  | none => rfl
  | some n => exact congrArg Except.toOption (Decimal.readInt64_ofInt n)

theorem component?_eq_some_iff {items : List (Option Int)} {i : Nat} {word : Int64} :
    component? ((items.map itemForm)[i]?.getD .null) = some word ↔
      componentAt items i = word.toInt := by
  have found : (items.map itemForm)[i]?.getD .null = itemForm (items[i]?.getD none) := by
    rw [List.getElem?_map]
    exact Option.getD_map itemForm none items[i]?
  rw [found, component?_itemForm, componentAt, ← Decimal.inRange_eq_ok_iff]
  cases Decimal.inRange ((items[i]?.getD none).getD 0) <;> simp [Except.toOption]

/-- The time is the one whose components are the first three items. -/
def IsRead (items : List (Option Int)) (t : Timing) : Prop :=
  componentAt items 0 = t.clock.toInt ∧ componentAt items 1 = t.read.toInt ∧
    componentAt items 2 = t.write.toInt

theorem ofForm?_array_iff {items : List (Option Int)} {t : Timing} :
    ofForm? (.array (items.map itemForm)) = some t ↔ IsRead items t := by
  simp only [ofForm?, bind, pure, Option.bind_eq_some_iff, Option.some.injEq,
    component?_eq_some_iff]
  constructor
  · rintro ⟨clock, first, read, second, write, third, rfl⟩
    exact ⟨first, second, third⟩
  · rintro ⟨first, second, third⟩
    exact ⟨_, first, _, second, _, third, rfl⟩

theorem ofJson?_array_iff {items : List (Option Int)} {text : Bytes}
    (spaced : Spaced (arrayPieces items) text) (t : Timing) :
    ofJson? text = some t ↔ IsRead items t := by
  rw [ofJson?, Form.ofText?_array spaced, Option.bind_eq_bind, Option.bind_some, ofForm?_array_iff]

theorem isRead_items (t : Timing) : IsRead t.items t := ⟨rfl, rfl, rfl⟩

/-- Times survive being written and read. The text of a time consists of its pieces, and with any
blanks around them it is read as the time; so different times have different texts. An array of any
length is read as a time exactly if the first three items are its components, so there is none for an
item that is out of range. -/
theorem ofJson?_spaced :
    (∀ t : Timing, t.toJson.render .compact = (arrayPieces t.items).flatten ∧
      (∀ layout, ofJson? (t.toJson.render layout) = some t) ∧
      (∀ text, Spaced (arrayPieces t.items) text → ofJson? text = some t) ∧
      ∀ t', t' ≠ t → t'.toJson.render .compact ≠ t.toJson.render .compact) ∧
    ∀ items text, Spaced (arrayPieces items) text →
      ∀ t, ofJson? text = some t ↔ IsRead items t := by
  have readBack (t : Timing) (text : Bytes) (spaced : Spaced (arrayPieces t.items) text) :
      ofJson? text = some t := (ofJson?_array_iff spaced t).mpr t.isRead_items
  have written (t : Timing) (layout : Layout) : ofJson? (t.toJson.render layout) = some t :=
    readBack t _ (t.spaced_render layout)
  refine ⟨fun t => ⟨t.render_compact, written t, readBack t, ?_⟩, ?_⟩
  · intro t' other same
    have here := written t .compact
    rw [← same, written t'] at here
    exact other (Option.some.inj here)
  · exact fun items text spaced => ofJson?_array_iff spaced

/-- The least and the greatest component, among blanks of all kinds, and an item just out of range. -/
theorem ofJson?_spaced_extremes :
    let extremes : Timing := ⟨Int64.minValue, Int64.maxValue, -1⟩
    let text := Bytes.ofString " [\t-9223372036854775808 ,\r\n9223372036854775807,-1] "
    let beyond := Bytes.ofString "[null,9223372036854775808]"
    Spaced (arrayPieces extremes.items) text ∧ ofJson? text = some extremes ∧
      Spaced (arrayPieces [none, some 0x8000_0000_0000_0000]) beyond ∧
      (∀ t, ofJson? beyond ≠ some t) ∧ zero ≠ extremes ∧
      zero.toJson.render .compact ≠ extremes.toJson.render .compact := by
  intro extremes text beyond
  have blank (gap : Bytes) (all : gap.all isBlank = true) : ∀ b ∈ gap, isBlank b = true :=
    List.all_eq_true.mp all
  have written : Spaced (arrayPieces extremes.items) _ :=
    .cons (blank [' '.toUInt8] rfl) (.cons (blank ['\t'.toUInt8] rfl) (.cons (blank [' '.toUInt8] rfl)
      (.cons (blank ['\r'.toUInt8, '\n'.toUInt8] rfl) (.cons (blank [] rfl) (.cons (blank [] rfl)
        (.cons (blank [] rfl) (.nil (blank [' '.toUInt8] rfl))))))))
  have spaced : Spaced (arrayPieces extremes.items) text :=
    Eq.mp (congrArg (Spaced _) (by decide +kernel)) written
  have written' : Spaced (arrayPieces [none, some 0x8000_0000_0000_0000]) _ :=
    .cons (blank [] rfl) (.cons (blank [] rfl) (.cons (blank [] rfl) (.cons (blank [] rfl)
      (.cons (blank [] rfl) (.nil (blank [] rfl))))))
  have spaced' : Spaced (arrayPieces [none, some 0x8000_0000_0000_0000]) beyond :=
    Eq.mp (congrArg (Spaced _) (by decide +kernel)) written'
  have other : zero ≠ extremes := by decide
  obtain ⟨-, -, readBack, different⟩ := ofJson?_spaced.1 extremes
  refine ⟨spaced, readBack text spaced, spaced', fun t => ?_, other, different zero other⟩
  rw [ne_eq, ofJson?_spaced.2 _ _ spaced']
  rintro ⟨-, second, -⟩
  have bounded := t.read.toInt_lt
  rw [← second] at bounded
  exact absurd bounded (by decide)

end Asm68k.Timing
