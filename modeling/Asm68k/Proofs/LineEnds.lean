import Mathlib.Data.List.Chain
import Asm68k.Proofs.Bytes
import Asm68k.Resolver

/-!
Line ends. A line ends with a line feed, a carriage return, or both in this order, and the lines of a
text do not depend on which of them it has: `lines_layout`. Every text is laid out in one of these ways
(`exists_layout`), so what holds of laid out lines holds of the lines of any text.
-/

namespace Asm68k.Bytes

/-! ### The lines of a longer text -/

theorem lines_cons_feed (text : Bytes) : lines ('\n'.toUInt8 :: text) = [] :: text.lines := by
  have empty : ∀ b ∈ ([] : Bytes), IsInner b := by simp
  exact lines_append_feed empty text

theorem lines_cons_inner {b : UInt8} (inner : IsInner b) (text : Bytes) :
    lines (b :: text) = text.lines.modifyHead (b :: ·) := by
  unfold lines
  rw [List.foldr_cons]
  generalize text.foldr lines.add ([], [], false) = state
  obtain ⟨line, rest, atFeed⟩ := state
  simp [lines.add, inner.1, inner.2]

/-- The flag of the walk tells how the text begins. -/
theorem foldr_lines_add_flag (text : Bytes) :
    (text.foldr lines.add ([], [], false)).2.2 = (text.head? == some '\n'.toUInt8) := by
  cases text with
  | nil => rfl
  | cons b text =>
    rw [List.foldr_cons, List.head?_cons]
    generalize text.foldr lines.add ([], [], false) = state
    obtain ⟨line, rest, atFeed⟩ := state
    unfold lines.add
    by_cases feed : b = '\n'.toUInt8
    · simp [feed]
    · by_cases carriage : b = '\r'.toUInt8 <;> cases atFeed <;> simp_all

theorem lines_cons_carriage (text : Bytes) : lines ('\r'.toUInt8 :: text) =
    if text.head? = some '\n'.toUInt8 then text.lines else [] :: text.lines := by
  have flag := foldr_lines_add_flag text
  unfold lines
  rw [List.foldr_cons]
  generalize text.foldr lines.add ([], [], false) = state at flag
  obtain ⟨line, rest, atFeed⟩ := state
  obtain rfl : atFeed = _ := flag
  have other : '\r'.toUInt8 ≠ '\n'.toUInt8 := by decide
  by_cases feed : text.head? = some '\n'.toUInt8 <;> simp [lines.add, feed, other]

theorem lines_append_inner {part : Bytes} (inner : ∀ b ∈ part, IsInner b) (text : Bytes) :
    (part ++ text).lines = text.lines.modifyHead (part ++ ·) := by
  induction part with
  | nil =>
    rw [List.nil_append]
    cases text.lines <;> rfl
  | cons b part ih =>
    obtain ⟨here, later⟩ := List.forall_mem_cons.mp inner
    rw [List.cons_append, lines_cons_inner here, ih later]
    cases text.lines <;> rfl

/-! ### Layouts -/

inductive LineEnd where
  | feed
  | carriage
  | both
  deriving DecidableEq

def LineEnd.text : LineEnd → Bytes
  | .feed => ['\n'.toUInt8]
  | .carriage => ['\r'.toUInt8]
  | .both => ['\r'.toUInt8, '\n'.toUInt8]

/-- A first line, and lines after it with what ends the line before each. -/
def laidOut (first : Bytes) (rest : List (LineEnd × Bytes)) : Bytes :=
  first ++ rest.flatMap fun (lineEnd, line) => lineEnd.text ++ line

/-- No carriage return and line feed come together that are two line ends with an empty line between
them. -/
def Apart (before after : LineEnd × Bytes) : Prop :=
  ¬ (before = (.carriage, []) ∧ after.1 = .feed)

instance (before after : LineEnd × Bytes) : Decidable (Apart before after) :=
  inferInstanceAs (Decidable (¬ _))

/-- Lines with the ends that stand between them. -/
structure Layout where
  first : Bytes
  rest : List (LineEnd × Bytes)
  inner : ∀ line ∈ first :: rest.map Prod.snd, ∀ b ∈ line, IsInner b

namespace Layout

def lines (layout : Layout) : List Bytes := layout.first :: layout.rest.map Prod.snd

def text (layout : Layout) : Bytes := laidOut layout.first layout.rest

/-- Every line end can be told from its neighbours. -/
def IsClear (layout : Layout) : Prop := layout.rest.IsChain Apart

end Layout

theorem laidOut_cons (first : Bytes) (lineEnd : LineEnd) (line : Bytes)
    (rest : List (LineEnd × Bytes)) :
    laidOut first ((lineEnd, line) :: rest) = first ++ (lineEnd.text ++ laidOut line rest) := by
  simp [laidOut]

theorem apart_iff {lineEnd : LineEnd} {line : Bytes} (inner : ∀ b ∈ line, IsInner b)
    {rest : List (LineEnd × Bytes)} :
    (∀ after ∈ rest.head?, Apart (lineEnd, line) after) ↔
      ¬ (lineEnd = .carriage ∧ (laidOut line rest).head? = some '\n'.toUInt8) := by
  have other : '\r'.toUInt8 ≠ '\n'.toUInt8 := by decide
  cases line with
  | cons b line =>
    have here := (inner b List.mem_cons_self).1
    simp [Apart, laidOut, here]
  | nil =>
    cases rest with
    | nil => simp [laidOut]
    | cons next rest =>
      obtain ⟨lineEnd', line'⟩ := next
      cases lineEnd' <;> simp [Apart, laidOut, LineEnd.text, other]

/-- A line end begins a line, unless it is a carriage return before a line feed. -/
theorem lines_lineEnd (lineEnd : LineEnd) (text : Bytes) :
    (lineEnd.text ++ text).lines =
      if lineEnd = .carriage ∧ text.head? = some '\n'.toUInt8 then text.lines
      else [] :: text.lines := by
  cases lineEnd <;> simp [LineEnd.text, lines_cons_feed, lines_cons_carriage]

theorem length_lines_laidOut_le {first : Bytes} {rest : List (LineEnd × Bytes)}
    (inner : ∀ line ∈ first :: rest.map Prod.snd, ∀ b ∈ line, IsInner b) :
    (laidOut first rest).lines.length ≤ rest.length + 1 := by
  induction rest generalizing first with
  | nil => simp [laidOut, lines_of_inner (inner first List.mem_cons_self)]
  | cons next rest ih =>
    obtain ⟨lineEnd, line⟩ := next
    obtain ⟨here, later⟩ := List.forall_mem_cons.mp inner
    have fewer : (laidOut line rest).lines.length ≤ rest.length + 1 := ih later
    rw [laidOut_cons, lines_append_inner here, List.length_modifyHead, lines_lineEnd]
    split <;> simp only [List.length_cons] <;> omega

/-- Laid out lines are read back exactly if their ends can be told apart. -/
theorem lines_laidOut_iff {first : Bytes} {rest : List (LineEnd × Bytes)}
    (inner : ∀ line ∈ first :: rest.map Prod.snd, ∀ b ∈ line, IsInner b) :
    (laidOut first rest).lines = first :: rest.map Prod.snd ↔ rest.IsChain Apart := by
  induction rest generalizing first with
  | nil => simp [laidOut, lines_of_inner (inner first List.mem_cons_self)]
  | cons next rest ih =>
    obtain ⟨lineEnd, line⟩ := next
    obtain ⟨here, later⟩ := List.forall_mem_cons.mp inner
    rw [laidOut_cons, lines_append_inner here, lines_lineEnd, List.isChain_cons,
      apart_iff (List.forall_mem_cons.mp later).1, ← ih later]
    by_cases joins : lineEnd = .carriage ∧ (laidOut line rest).head? = some '\n'.toUInt8
    · -- The two ends count as one, so there are too few lines.
      have fewer : (laidOut line rest).lines.length ≤ rest.length + 1 :=
        length_lines_laidOut_le later
      rw [if_pos joins]
      refine iff_of_false (fun same => ?_) (fun both => both.1 joins)
      have lengths := congrArg List.length same
      simp only [List.length_modifyHead, List.length_cons, List.length_map] at lengths
      omega
    · simp [joins]

/-! ### Texts -/

/-- A line end before a layout, of which it must be no part. -/
theorem Layout.exists_lineEnd {layout : Layout} (clear : layout.IsClear) (lineEnd : LineEnd)
    (apart : ¬ (lineEnd = .carriage ∧ layout.text.head? = some '\n'.toUInt8)) :
    ∃ longer : Layout, longer.IsClear ∧ longer.text = lineEnd.text ++ layout.text := by
  obtain ⟨first, rest, inner⟩ := layout
  have here : ∀ b ∈ first, IsInner b := (List.forall_mem_cons.mp inner).1
  refine ⟨⟨[], (lineEnd, first) :: rest, ?_⟩, ?_, ?_⟩
  · exact List.forall_mem_cons.mpr ⟨by simp, inner⟩
  · exact List.isChain_cons.mpr ⟨(apart_iff here).mpr apart, clear⟩
  · exact laidOut_cons [] lineEnd first rest

/-- Every text is laid out with ends that can be told apart. -/
theorem exists_layout (text : Bytes) : ∃ layout : Layout, layout.IsClear ∧ layout.text = text := by
  induction size : text.length using Nat.strongRecOn generalizing text with
  | ind n ih =>
    cases text with
    | nil => exact ⟨⟨[], [], by simp⟩, .nil, rfl⟩
    | cons b text =>
      rw [List.length_cons] at size
      obtain ⟨layout, clear, rfl⟩ := ih text.length (by omega) text rfl
      by_cases feed : b = '\n'.toUInt8
      · obtain rfl := feed
        exact layout.exists_lineEnd clear .feed (by simp)
      by_cases carriage : b = '\r'.toUInt8
      · obtain rfl := carriage
        by_cases joins : layout.text.head? = some '\n'.toUInt8
        · obtain ⟨text, whole⟩ := List.head?_eq_some_iff.mp joins
          rw [whole, List.length_cons] at size
          obtain ⟨layout', clear', rfl⟩ := ih text.length (by omega) text rfl
          rw [whole]
          exact layout'.exists_lineEnd clear' .both (by simp)
        · exact layout.exists_lineEnd clear .carriage (by simp [joins])
      · obtain ⟨first, rest, inner⟩ := layout
        obtain ⟨here, later⟩ := List.forall_mem_cons.mp inner
        refine ⟨⟨b :: first, rest, ?_⟩, clear, rfl⟩
        exact List.forall_mem_cons.mpr
          ⟨List.forall_mem_cons.mpr ⟨⟨feed, carriage⟩, here⟩, later⟩

/-! ### Replacing and splitting -/

theorem split_cons_mark (mark : UInt8) (text : Bytes) :
    split mark (mark :: text) = [] :: text.split mark := by
  simp [split, split.add]

theorem split_cons_other {mark b : UInt8} (other : b ≠ mark) (text : Bytes) :
    split mark (b :: text) = (text.split mark).modifyHead (b :: ·) := by
  simp [split, split.add, other]

/-- The text with a line feed for every line end. -/
def withFeeds (text : Bytes) : Bytes :=
  (text.replaceAll LineEnd.both.text LineEnd.feed.text).replaceAll LineEnd.carriage.text
    LineEnd.feed.text

theorem withFeeds_cons {b : UInt8} (other : b ≠ '\r'.toUInt8) (text : Bytes) :
    withFeeds (b :: text) = b :: withFeeds text := by
  have absent (old rest : Bytes) : ¬ '\r'.toUInt8 :: old <+: b :: rest :=
    fun found => other (List.cons_prefix_cons.mp found).1.symm
  unfold withFeeds LineEnd.text
  rw [replaceAll_miss (absent _ _), replaceAll_miss (absent _ _)]

theorem withFeeds_both (text : Bytes) :
    withFeeds (LineEnd.both.text ++ text) = '\n'.toUInt8 :: withFeeds text := by
  have other : ¬ LineEnd.carriage.text <+: '\n'.toUInt8 ::
      text.replaceAll LineEnd.both.text LineEnd.feed.text :=
    fun found => absurd (List.cons_prefix_cons.mp found).1 (by decide)
  unfold withFeeds
  rw [replaceAll_hit (by simp [LineEnd.text])]
  exact replaceAll_miss other

theorem withFeeds_carriage (text : Bytes) : withFeeds ('\r'.toUInt8 :: text) =
    if text.head? = some '\n'.toUInt8 then withFeeds text
    else '\n'.toUInt8 :: withFeeds text := by
  split
  · rename_i feed
    obtain ⟨text, rfl⟩ := List.head?_eq_some_iff.mp feed
    have kept : withFeeds ('\n'.toUInt8 :: text) = '\n'.toUInt8 :: withFeeds text :=
      withFeeds_cons (by decide) text
    rw [kept]
    exact withFeeds_both text
  · rename_i other
    have absent : ¬ LineEnd.both.text <+: '\r'.toUInt8 :: text := by
      rintro ⟨rest, whole⟩
      rw [← (List.cons.inj whole).2] at other
      exact other rfl
    unfold withFeeds
    rw [replaceAll_miss absent]
    exact replaceAll_hit (by simp [LineEnd.text]) _

theorem lines_eq_split (text : Bytes) : text.lines = text.withFeeds.split '\n'.toUInt8 := by
  induction text with
  | nil => rfl
  | cons b text ih =>
    by_cases feed : b = '\n'.toUInt8
    · obtain rfl := feed
      rw [lines_cons_feed, withFeeds_cons (by decide), split_cons_mark, ih]
    by_cases carriage : b = '\r'.toUInt8
    · obtain rfl := carriage
      rw [lines_cons_carriage, withFeeds_carriage]
      split
      · exact ih
      · rw [split_cons_mark, ih]
    · rw [lines_cons_inner ⟨feed, carriage⟩, withFeeds_cons carriage, split_cons_other feed, ih]

end Asm68k.Bytes

namespace Asm68k

open Bytes

/-- The lines of a source do not depend on its line ends. Lines are read back from their layout exactly
if a carriage return and a line feed in it never come together as two ends, and then the source has one
outcome, whichever ends it has. The lines of any text have no line end in them, they are the parts
between the line feeds once all other ends are replaced, and they stay what they are when line feeds
join them. -/
theorem lines_layout :
    (∀ layout : Layout, layout.text.lines = layout.lines ↔ layout.IsClear) ∧
    (∀ layout layout' : Layout, layout.IsClear → layout'.IsClear → layout.lines = layout'.lines →
      ∀ limits patience, Resolver.resolve limits patience layout.text =
        Resolver.resolve limits patience layout'.text) ∧
    ∀ text : Bytes, (∀ line ∈ text.lines, ∀ b ∈ line, IsInner b) ∧
      text.lines = (withFeeds text).split '\n'.toUInt8 ∧ (ofLines text.lines).lines = text.lines := by
  have readBack (layout : Layout) : layout.text.lines = layout.lines ↔ layout.IsClear :=
    lines_laidOut_iff layout.inner
  refine ⟨readBack, ?_, ?_⟩
  · intro layout layout' clear clear' same limits patience
    have lines : layout.text.lines = layout'.text.lines := by
      rw [(readBack layout).mpr clear, (readBack layout').mpr clear', same]
    unfold Resolver.resolve Resolver.statements
    rw [lines]
  · intro text
    obtain ⟨layout, clear, rfl⟩ := exists_layout text
    have lines : layout.text.lines = layout.lines := (readBack layout).mpr clear
    refine ⟨?_, lines_eq_split _, ?_⟩
    · rw [lines]
      exact layout.inner
    · rw [lines]
      exact lines_ofLines layout.inner (by simp [Layout.lines])

/-- An empty line between ends of two kinds. -/
theorem lines_layout_mixed :
    let mixed : Layout := ⟨ofString " nop", [(.carriage, []), (.both, ofString "end:"), (.feed, [])],
      by decide +kernel⟩
    let plain : Layout := ⟨ofString " nop", [(.feed, []), (.feed, ofString "end:"), (.feed, [])],
      by decide +kernel⟩
    mixed.IsClear ∧ plain.IsClear ∧ mixed.lines = plain.lines ∧
      lines (ofString " nop\r\r\nend:\n") = [ofString " nop", [], ofString "end:", []] ∧
      ∀ limits patience, Resolver.resolve limits patience (ofString " nop\r\r\nend:\n") =
        Resolver.resolve limits patience (ofString " nop\n\nend:\n") := by
  intro mixed plain
  have clear : mixed.IsClear := by simp [mixed, Layout.IsClear, Apart]
  have clear' : plain.IsClear := by simp [plain, Layout.IsClear, Apart]
  obtain ⟨readBack, resolved, -⟩ := lines_layout
  exact ⟨clear, clear', rfl, (readBack mixed).mpr clear, resolved mixed plain clear clear' rfl⟩

end Asm68k
