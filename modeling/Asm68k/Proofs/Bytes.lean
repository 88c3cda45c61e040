import Asm68k.Bytes

/-!
Bytes and lines of byte strings: cutting a text at a mark, replacing texts in it, joining lines with
line feeds and cutting the text again.
-/

namespace Asm68k.Bytes

/-- A property of bytes may be checked on all of them. -/
theorem forall_byte {p : UInt8 → Bool} (checked : ∀ n < 256, p (UInt8.ofNat n) = true)
    (b : UInt8) : p b = true := by
  have here := checked b.toNat b.toNat_lt
  rwa [UInt8.ofNat_toNat] at here

theorem takeWhile_ended {p : UInt8 → Bool} {text rest : Bytes} (inside : ∀ b ∈ text, p b = true)
    (stop : ∀ b ∈ rest.head?, p b = false) :
    (text ++ rest).takeWhile p = text ∧ (text ++ rest).dropWhile p = rest := by
  rw [List.takeWhile_append_of_pos inside, List.dropWhile_append_of_pos inside]
  cases rest with
  | nil => exact ⟨List.append_nil _, rfl⟩
  | cons b rest =>
    have outside : ¬p b = true := by rw [stop b rfl]; exact Bool.false_ne_true
    rw [List.takeWhile_cons_of_neg outside, List.dropWhile_cons_of_neg outside]
    exact ⟨List.append_nil _, rfl⟩

theorem cut?_eq_some {mark : UInt8} {text before after : Bytes}
    (h : text.cut? mark = some (before, after)) :
    text = before ++ mark :: after ∧ mark ∉ before := by
  unfold cut? at h
  split at h
  · cases h
  rename_i b rest found
  cases h
  have closing : b = mark := by
    have stop := List.head?_dropWhile_not (· != mark) text
    rw [found] at stop
    simpa using stop
  have whole : text.takeWhile (· != mark) ++ text.dropWhile (· != mark) = text :=
    List.takeWhile_append_dropWhile
  rw [found, closing] at whole
  refine ⟨whole.symm, ?_⟩
  intro member
  have all := List.all_takeWhile (p := (· != mark)) (l := text)
  exact absurd (List.all_eq_true.mp all mark member) (by simp)

theorem cut?_append {mark : UInt8} {before : Bytes} (absent : mark ∉ before) (after : Bytes) :
    cut? mark (before ++ mark :: after) = some (before, after) := by
  have others : ∀ b ∈ before, (b != mark) = true := by
    intro b member
    rw [bne_iff_ne]
    rintro rfl
    exact absent member
  unfold cut?
  rw [List.dropWhile_append_of_pos others, List.takeWhile_append_of_pos others]
  simp

theorem cut?_eq_none {mark : UInt8} {text : Bytes} (absent : mark ∉ text) :
    text.cut? mark = none := by
  cases found : text.cut? mark with
  | none => rfl
  | some parts =>
    obtain ⟨whole, -⟩ := cut?_eq_some found
    exact absurd (whole ▸ by simp) absent

/-! ### Replacing -/

section

variable {old new : Bytes}

theorem replaceAll_go_eq (skip : Nat) (text : Bytes) :
    replaceAll.go old new skip text = replaceAll (text.drop skip) old new := by
  unfold replaceAll
  induction text generalizing skip with
  | nil => rw [List.drop_nil, replaceAll.go, replaceAll.go]
  | cons b rest ih =>
    cases skip with
    | zero => rfl
    | succ skip => rw [replaceAll.go, List.drop_succ_cons, ih]

theorem replaceAll_hit (filled : old ≠ []) (rest : Bytes) :
    replaceAll (old ++ rest) old new = new ++ rest.replaceAll old new := by
  obtain ⟨b, behind, rfl⟩ := List.exists_cons_of_ne_nil filled
  have found : (b :: behind).isPrefixOf (b :: (behind ++ rest)) = true :=
    List.isPrefixOf_iff_prefix.mpr (List.prefix_append (b :: behind) rest)
  rw [List.cons_append, replaceAll, replaceAll.go, found, if_pos rfl, replaceAll_go_eq,
    List.length_cons, Nat.add_sub_cancel, List.drop_left]

theorem replaceAll_miss {b : UInt8} {rest : Bytes} (absent : ¬ old <+: b :: rest) :
    replaceAll (b :: rest) old new = b :: rest.replaceAll old new := by
  have missed : old.isPrefixOf (b :: rest) = false := by
    rw [← Bool.not_eq_true, List.isPrefixOf_iff_prefix]
    exact absent
  rw [replaceAll, replaceAll.go, missed]
  rfl

theorem replaceAll_append {mark : UInt8} {part : Bytes} (absent : mark ∉ part) (rest : Bytes) :
    replaceAll (part ++ rest) (mark :: old) new = part ++ rest.replaceAll (mark :: old) new := by
  induction part with
  | nil => rfl
  | cons b part ih =>
    rw [List.mem_cons, not_or] at absent
    rw [List.cons_append, replaceAll_miss, ih absent.2, List.cons_append]
    exact fun found => absent.1 (List.cons_prefix_cons.mp found).1

theorem length_replaceAll_le (shorter : new.length ≤ old.length) (filled : old ≠ [])
    (text : Bytes) : (text.replaceAll old new).length ≤ text.length := by
  induction whole : text.length using Nat.strongRecOn generalizing text with
  | ind n ih =>
    cases text with
    | nil => exact Nat.zero_le n
    | cons b rest =>
      rw [List.length_cons] at whole
      by_cases found : old <+: b :: rest
      · obtain ⟨behind, joined⟩ := found
        have positive := List.length_pos_iff.mpr filled
        have lengths := congrArg List.length joined
        rw [List.length_append, List.length_cons] at lengths
        have later := ih behind.length (by omega) behind rfl
        rw [← joined, replaceAll_hit filled, List.length_append]
        omega
      · have later := ih rest.length (by omega) rest rfl
        rw [replaceAll_miss found, List.length_cons]
        omega

end

/-- A pair of marks becomes one mark, so the bytes before the first mark and a mark remain. -/
theorem length_replaceAll_pair {mark : UInt8} {before : Bytes} (absent : mark ∉ before)
    (rest : Bytes) :
    before.length < ((before ++ mark :: rest).replaceAll [mark, mark] [mark]).length := by
  have filled : 0 < (replaceAll (mark :: rest) [mark, mark] [mark]).length := by
    rw [replaceAll, replaceAll.go]
    split <;> exact Nat.succ_pos _
  rw [replaceAll_append absent, List.length_append]
  omega

/-! ### Lines -/

/-- The byte ends no line. -/
def IsInner (b : UInt8) : Prop := b ≠ '\n'.toUInt8 ∧ b ≠ '\r'.toUInt8

instance : DecidablePred IsInner := fun b => inferInstanceAs (Decidable (b ≠ _ ∧ b ≠ _))

/-- The text of some lines, each but the last ended by a line feed. -/
def ofLines (lines : List Bytes) : Bytes := join ['\n'.toUInt8] lines

theorem foldr_lines_add {part : Bytes} (inner : ∀ b ∈ part, IsInner b) (line : Bytes)
    (rest : List Bytes) (atFeed : Bool) :
    ∃ atFeed', part.foldr lines.add (line, rest, atFeed) = (part ++ line, rest, atFeed') := by
  induction part with
  | nil => exact ⟨atFeed, rfl⟩
  | cons b part ih =>
    obtain ⟨atFeed', ih⟩ := ih fun c member => inner c (List.mem_cons_of_mem b member)
    have here := inner b List.mem_cons_self
    refine ⟨false, ?_⟩
    rw [List.foldr_cons, ih, lines.add]
    simp [here.1, here.2]

theorem lines_of_inner {part : Bytes} (inner : ∀ b ∈ part, IsInner b) : part.lines = [part] := by
  obtain ⟨_, folded⟩ := foldr_lines_add inner [] [] false
  rw [lines, folded, List.append_nil]

theorem lines_append_feed {part : Bytes} (inner : ∀ b ∈ part, IsInner b) (text : Bytes) :
    (part ++ '\n'.toUInt8 :: text).lines = part :: text.lines := by
  unfold lines
  rw [List.foldr_append, List.foldr_cons]
  generalize text.foldr lines.add ([], [], false) = rest
  obtain ⟨line, later, atFeed⟩ := rest
  obtain ⟨_, folded⟩ := foldr_lines_add inner [] (line :: later) true
  rw [show lines.add '\n'.toUInt8 (line, later, atFeed) = ([], line :: later, true) from rfl,
    folded, List.append_nil]

theorem lines_ofLines {parts : List Bytes} (inner : ∀ part ∈ parts, ∀ b ∈ part, IsInner b)
    (nonempty : parts ≠ []) : (ofLines parts).lines = parts := by
  unfold ofLines
  induction parts with
  | nil => exact (nonempty rfl).elim
  | cons part parts ih =>
    have first := inner part List.mem_cons_self
    cases parts with
    | nil => exact lines_of_inner first
    | cons next parts =>
      have rest := ih (fun p member => inner p (List.mem_cons_of_mem part member)) (by simp)
      rw [join, List.append_assoc, List.singleton_append, lines_append_feed first, rest]
      · simp

end Asm68k.Bytes
