import Asm68k.Pattern

/-!
Where a pattern is found. The searches are told by what stands around the part that the pattern
describes, and from the pattern can be computed which runes such a part avoids, begins and ends with.
Deleting such parts leaves the runes that begin none of them.
-/

namespace Asm68k.Pattern

variable {p q : Pattern} {accepts : Rune → Bool} {text : List Rune} {r : Rune}

/-! ### Describing -/

theorem describes_nothing_iff : nothing.Describes text ↔ text = [] := by
  constructor
  · intro h
    cases h
    rfl
  · rintro rfl
    exact .nothing

theorem describes_one_iff : (one accepts).Describes text ↔ ∃ r, accepts r = true ∧ text = [r] := by
  constructor
  · intro h
    cases h with
    | one ok => exact ⟨_, ok, rfl⟩
  · rintro ⟨r, ok, rfl⟩
    exact .one ok

theorem describes_many_iff : (many accepts).Describes text ↔ ∀ r ∈ text, accepts r = true := by
  constructor
  · intro h
    cases h with
    | many ok => exact ok
  · exact .many

theorem describes_seq_iff :
    (seq p q).Describes text ↔ ∃ s t, p.Describes s ∧ q.Describes t ∧ text = s ++ t := by
  constructor
  · intro h
    cases h with
    | seq hs ht => exact ⟨_, _, hs, ht, rfl⟩
  · rintro ⟨s, t, hs, ht, rfl⟩
    exact .seq hs ht

theorem describes_alt_iff : (alt p q).Describes text ↔ p.Describes text ∨ q.Describes text := by
  constructor
  · intro h
    cases h with
    | left h => exact .inl h
    | right h => exact .inr h
  · rintro (h | h)
    · exact .left h
    · exact .right h

theorem describes_char_iff {c : Char} : (char c).Describes text ↔ text = [.scalar c] := by
  simp [char, describes_one_iff, Rune.isChar]

/-! ### Finding -/

theorem fitsWhole_iff : p.fitsWhole text = true ↔ p.Describes text := by
  rw [fitsWhole, List.contains_iff_mem, mem_remainders_iff]
  simp

theorem fitsFront_iff :
    p.fitsFront text = true ↔ ∃ s after, p.Describes s ∧ text = s ++ after := by
  have found : p.fitsFront text = true ↔ ∃ after, after ∈ p.remainders text := by
    rw [fitsFront, Bool.not_eq_true', List.isEmpty_eq_false_iff_exists_mem]
  rw [found]
  simp only [mem_remainders_iff]
  exact exists_comm

theorem anyTail_iff {test : List Rune → Bool} :
    anyTail test text = true ↔ ∃ before tail, test tail = true ∧ text = before ++ tail := by
  induction text with
  | nil => simp [anyTail]
  | cons r text ih =>
    rw [anyTail, Bool.or_eq_true, ih]
    constructor
    · rintro (here | ⟨before, tail, ok, rfl⟩)
      · exact ⟨[], _, here, rfl⟩
      · exact ⟨r :: before, tail, ok, rfl⟩
    · rintro ⟨before, tail, ok, same⟩
      cases before with
      | nil => exact .inl (same ▸ ok)
      | cons x before => exact .inr ⟨before, tail, ok, (List.cons.inj same).2⟩

theorem occursIn_iff :
    p.occursIn text = true ↔ ∃ before s after, p.Describes s ∧ text = before ++ (s ++ after) := by
  rw [occursIn, anyTail_iff]
  simp only [fitsFront_iff]
  constructor
  · rintro ⟨before, _, ⟨s, after, hs, rfl⟩, rfl⟩
    exact ⟨before, s, after, hs, rfl⟩
  · rintro ⟨before, s, after, hs, rfl⟩
    exact ⟨before, _, ⟨s, after, hs, rfl⟩, rfl⟩

theorem endsIn_iff : p.endsIn text = true ↔ ∃ before s, p.Describes s ∧ text = before ++ s := by
  simp only [endsIn, anyTail_iff, fitsWhole_iff]

/-! ### Runes of what is described -/

/-- The rune is in no text that the pattern describes. -/
def avoids (r : Rune) : Pattern → Bool
  | .nothing => true
  | .one accepts | .many accepts => !accepts r
  | .seq p q | .alt p q => p.avoids r && q.avoids r

def canBeEmpty : Pattern → Bool
  | .nothing | .many _ => true
  | .one _ => false
  | .seq p q => p.canBeEmpty && q.canBeEmpty
  | .alt p q => p.canBeEmpty || q.canBeEmpty

def mayBegin (r : Rune) : Pattern → Bool
  | .nothing => false
  | .one accepts | .many accepts => accepts r
  | .seq p q => p.mayBegin r || p.canBeEmpty && q.mayBegin r
  | .alt p q => p.mayBegin r || q.mayBegin r

def mayEnd (r : Rune) : Pattern → Bool
  | .nothing => false
  | .one accepts | .many accepts => accepts r
  | .seq p q => q.mayEnd r || q.canBeEmpty && p.mayEnd r
  | .alt p q => p.mayEnd r || q.mayEnd r

theorem Describes.not_mem (h : p.Describes text) (avoided : p.avoids r = true) : r ∉ text := by
  induction h with
  | nothing => exact List.not_mem_nil
  | one ok =>
    rintro member
    obtain rfl := List.mem_singleton.mp member
    simp [avoids, ok] at avoided
  | many ok =>
    intro member
    simp [avoids, ok r member] at avoided
  | seq _ _ ihp ihq =>
    rw [avoids, Bool.and_eq_true] at avoided
    rw [List.mem_append]
    rintro (left | right)
    · exact ihp avoided.1 left
    · exact ihq avoided.2 right
  | left _ ih => exact ih (Bool.and_eq_true_iff.mp avoided).1
  | right _ ih => exact ih (Bool.and_eq_true_iff.mp avoided).2

theorem Describes.canBeEmpty (h : p.Describes []) : p.canBeEmpty = true := by
  generalize empty : [] = text at h
  induction h with
  | nothing | many => rfl
  | one => cases empty
  | seq _ _ ihp ihq =>
    obtain ⟨rfl, rfl⟩ := List.append_eq_nil_iff.mp empty.symm
    rw [Pattern.canBeEmpty, ihp rfl, ihq rfl, Bool.true_and]
  | left _ ih => rw [Pattern.canBeEmpty, ih empty, Bool.true_or]
  | right _ ih => rw [Pattern.canBeEmpty, ih empty, Bool.or_true]

theorem Describes.mayBegin (h : p.Describes (r :: text)) : p.mayBegin r = true := by
  generalize whole : r :: text = t at h
  induction h generalizing text with
  | nothing => cases whole
  | one ok =>
    obtain ⟨rfl, -⟩ := List.cons.inj whole
    exact ok
  | many ok => exact ok r (whole ▸ List.mem_cons_self)
  | @seq p q s t hs _ ihp ihq =>
    cases s with
    | nil => rw [Pattern.mayBegin, hs.canBeEmpty, ihq whole, Bool.and_true, Bool.or_true]
    | cons x s =>
      obtain ⟨rfl, -⟩ := List.cons.inj whole
      rw [Pattern.mayBegin, ihp rfl, Bool.true_or]
  | left _ ih => rw [Pattern.mayBegin, ih whole, Bool.true_or]
  | right _ ih => rw [Pattern.mayBegin, ih whole, Bool.or_true]

theorem Describes.mayEnd (h : p.Describes (text ++ [r])) : p.mayEnd r = true := by
  generalize whole : text ++ [r] = t at h
  induction h generalizing text with
  | nothing => simp at whole
  | @one accepts x ok =>
    obtain ⟨-, same⟩ := List.append_inj' (show text ++ [r] = [] ++ [x] from whole) rfl
    obtain rfl := List.singleton_inj.mp same
    exact ok
  | many ok => exact ok r (whole ▸ List.mem_concat_self)
  | @seq p q s t _ ht ihp ihq =>
    rcases List.eq_nil_or_concat t with rfl | ⟨t, x, rfl⟩
    · rw [Pattern.mayEnd, ht.canBeEmpty, ihp (whole.trans (List.append_nil s)), Bool.and_true,
        Bool.or_true]
    · rw [List.concat_eq_append, ← List.append_assoc] at whole
      obtain ⟨-, same⟩ := List.append_inj' whole rfl
      obtain rfl := List.singleton_inj.mp same
      rw [Pattern.mayEnd, ihq List.concat_eq_append.symm, Bool.true_or]
  | left _ ih => rw [Pattern.mayEnd, ih whole, Bool.true_or]
  | right _ ih => rw [Pattern.mayEnd, ih whole, Bool.or_true]

/-! ### Deleting -/

theorem deleteFrom_go (skip : Nat) (text : List Rune) :
    deleteFrom.go p skip text = p.deleteFrom (text.drop skip) := by
  unfold deleteFrom
  induction text generalizing skip with
  | nil => rw [List.drop_nil, deleteFrom.go, deleteFrom.go]
  | cons r rest ih =>
    cases skip with
    | zero => rfl
    | succ skip => rw [deleteFrom.go, List.drop_succ_cons, ih]

/-- What the pattern takes off the front of a text is deleted. -/
theorem deleteFrom_hit {s rest : List Rune} (filled : s ≠ [])
    (fits : p.remainders (s ++ rest) = [rest]) : p.deleteFrom (s ++ rest) = p.deleteFrom rest := by
  obtain ⟨r, s, rfl⟩ := List.exists_cons_of_ne_nil filled
  rw [List.cons_append] at fits ⊢
  rw [deleteFrom, deleteFrom.go, fits]
  show deleteFrom.go p ((s ++ rest).length - rest.length) (s ++ rest) = _
  rw [deleteFrom_go, List.length_append, Nat.add_sub_cancel, List.drop_left]

theorem deleteFrom_miss (filled : p.canBeEmpty = false) (other : p.mayBegin r = false)
    (rest : List Rune) : p.deleteFrom (r :: rest) = r :: p.deleteFrom rest := by
  have missed : p.remainders (r :: rest) = [] := by
    apply List.eq_nil_iff_forall_not_mem.mpr
    intro after member
    obtain ⟨s, described, whole⟩ := mem_remainders_iff.mp member
    cases s with
    | nil => exact Bool.false_ne_true (filled.symm.trans described.canBeEmpty)
    | cons x s =>
      obtain ⟨rfl, -⟩ := List.cons.inj whole
      exact Bool.false_ne_true (other.symm.trans described.mayBegin)
  rw [deleteFrom, deleteFrom.go, missed]
  rfl

theorem deleteFrom_append {s : List Rune} (filled : p.canBeEmpty = false)
    (others : ∀ r ∈ s, p.mayBegin r = false) (rest : List Rune) :
    p.deleteFrom (s ++ rest) = s ++ p.deleteFrom rest := by
  induction s with
  | nil => rfl
  | cons r s ih =>
    obtain ⟨here, later⟩ := List.forall_mem_cons.mp others
    rw [List.cons_append, deleteFrom_miss filled here, ih later, List.cons_append]

end Asm68k.Pattern
