import Asm68k.Rune

/-!
Patterns over runes: single characters, repetition of a character class, sequence and choice. A
pattern is run by listing what may remain of a text after it. Main statement: a remainder is listed
exactly when the pattern describes what was removed (`mem_remainders_iff`).
-/

namespace Asm68k

inductive Pattern where
  | nothing
  | one (accepts : Rune → Bool)
  | many (accepts : Rune → Bool)
  | seq (p q : Pattern)
  | alt (p q : Pattern)

namespace Pattern

/-- Every text that remains after some run, also the empty one, of accepted runes. -/
def afterRun (accepts : Rune → Bool) : List Rune → List (List Rune)
  | [] => [[]]
  | r :: rest => if accepts r then (r :: rest) :: afterRun accepts rest else [r :: rest]

/-- Every text that remains when the pattern is taken off the front. -/
def remainders : Pattern → List Rune → List (List Rune)
  | .nothing, text => [text]
  | .one _, [] => []
  | .one accepts, r :: rest => if accepts r then [rest] else []
  | .many accepts, text => afterRun accepts text
  | .seq p q, text => (p.remainders text).flatMap q.remainders
  | .alt p q, text => p.remainders text ++ q.remainders text

/-! ### Meaning -/

/-- The pattern describes the text. -/
inductive Describes : Pattern → List Rune → Prop where
  | nothing : Describes .nothing []
  | one {accepts r} : accepts r = true → Describes (.one accepts) [r]
  | many {accepts text} : (∀ r ∈ text, accepts r = true) → Describes (.many accepts) text
  | seq {p q s t} : Describes p s → Describes q t → Describes (.seq p q) (s ++ t)
  | left {p q s} : Describes p s → Describes (.alt p q) s
  | right {p q s} : Describes q s → Describes (.alt p q) s

theorem mem_afterRun_iff {accepts : Rune → Bool} {text rest : List Rune} :
    rest ∈ afterRun accepts text ↔ ∃ s, (∀ r ∈ s, accepts r = true) ∧ text = s ++ rest := by
  induction text generalizing rest with
  | nil =>
    simp only [afterRun, List.mem_singleton]
    constructor
    · rintro rfl
      exact ⟨[], by simp, rfl⟩
    · rintro ⟨s, _, h⟩
      exact (List.append_eq_nil_iff.mp h.symm).2
  | cons r tail ih =>
    unfold afterRun
    split
    · rename_i ok
      simp only [List.mem_cons, ih]
      constructor
      · rintro (rfl | ⟨s, hs, rfl⟩)
        · exact ⟨[], by simp, rfl⟩
        · exact ⟨r :: s, by grind, rfl⟩
      · rintro ⟨s, hs, h⟩
        cases s with
        | nil => exact .inl h.symm
        | cons x s => exact .inr ⟨s, by grind, by grind⟩
    · rename_i no
      simp only [List.mem_singleton]
      constructor
      · rintro rfl
        exact ⟨[], by simp, rfl⟩
      · rintro ⟨s, hs, h⟩
        cases s with
        | nil => exact h.symm
        | cons x s => grind

theorem mem_remainders_iff {p : Pattern} {text rest : List Rune} :
    rest ∈ p.remainders text ↔ ∃ s, p.Describes s ∧ text = s ++ rest := by
  induction p generalizing text rest with
  | nothing =>
    simp only [remainders, List.mem_singleton]
    constructor
    · rintro rfl
      exact ⟨[], .nothing, rfl⟩
    · rintro ⟨s, h, rfl⟩
      cases h
      rfl
  | one accepts =>
    constructor
    · cases text with
      | nil => simp [remainders]
      | cons r tail =>
        unfold remainders
        split
        · rename_i ok
          rintro h
          obtain rfl := List.mem_singleton.mp h
          exact ⟨[r], .one ok, rfl⟩
        · simp
    · rintro ⟨s, h, rfl⟩
      cases h with
      | one ok => simp [remainders, ok]
  | many accepts =>
    rw [remainders, mem_afterRun_iff]
    constructor
    · rintro ⟨s, hs, h⟩
      exact ⟨s, .many hs, h⟩
    · rintro ⟨s, h, e⟩
      cases h with
      | many hs => exact ⟨s, hs, e⟩
  | seq p q ihp ihq =>
    simp only [remainders, List.mem_flatMap, ihp, ihq]
    constructor
    · rintro ⟨_, ⟨s, hs, rfl⟩, t, ht, rfl⟩
      exact ⟨s ++ t, .seq hs ht, by simp⟩
    · rintro ⟨_, h, rfl⟩
      cases h with
      | seq hs ht => exact ⟨_, ⟨_, hs, by simp⟩, _, ht, rfl⟩
  | alt p q ihp ihq =>
    simp only [remainders, List.mem_append, ihp, ihq]
    constructor
    · rintro (⟨s, hs, h⟩ | ⟨s, hs, h⟩)
      · exact ⟨s, .left hs, h⟩
      · exact ⟨s, .right hs, h⟩
    · rintro ⟨s, h, e⟩
      cases h with
      | left hs => exact .inl ⟨s, hs, e⟩
      | right hs => exact .inr ⟨s, hs, e⟩

/-! ### Finding and deleting -/

/-- Some front part of the text, or the whole text, is described. -/
def fitsFront (p : Pattern) (text : List Rune) : Bool := !(p.remainders text).isEmpty

def fitsWhole (p : Pattern) (text : List Rune) : Bool := (p.remainders text).contains []

/-- Whether some end of the text, the text itself and the empty end included, passes the test. -/
def anyTail (test : List Rune → Bool) : List Rune → Bool
  | [] => test []
  | r :: rest => test (r :: rest) || anyTail test rest

def occursIn (p : Pattern) (text : List Rune) : Bool := anyTail p.fitsFront text

def endsIn (p : Pattern) (text : List Rune) : Bool := anyTail p.fitsWhole text

/-- Deletes the parts of the text that the pattern describes, from the left. -/
def deleteFrom (p : Pattern) (text : List Rune) : List Rune := go 0 text
where
  /-- The first argument counts the runes of a deleted part that are still to be dropped. -/
  go : Nat → List Rune → List Rune
    | _, [] => []
    | skip + 1, _ :: rest => go skip rest
    | 0, r :: rest =>
      match (p.remainders (r :: rest)).head? with
      | some remainder => go (rest.length - remainder.length) rest
      | none => r :: go 0 rest

/-! ### Character classes -/

def char (c : Char) : Pattern := .one (·.isChar c)

/-- The sequence of the patterns. -/
def chain : List Pattern → Pattern
  | [] => .nothing
  | [p] => p
  | p :: ps => .seq p (chain ps)

/-- The characters that fold to the lower case letter `c`: both cases, U+017F for `s` and U+212A
for `k`. -/
def foldsTo (c : Char) (r : Rune) : Bool :=
  r.isChar c || r.isChar c.toUpper || (c == 's' && r.isChar '\u017F') ||
    (c == 'k' && r.isChar '\u212A')

def letter (c : Char) : Pattern := .one (foldsTo c)

/-- The letters of a lower case word, in either case. -/
def word (s : String) : Pattern := chain (s.toList.map letter)

/-- Blanks inside an operand. -/
def isBlank (r : Rune) : Bool := ['\t', '\n', '\x0c', '\r', ' '].any r.isChar

/-- Letters of either case and what folds to them, digits and the underscore. -/
def isWord (r : Rune) : Bool :=
  r.isBetween '0' '9' || r.isBetween 'a' 'z' || r.isBetween 'A' 'Z' || r.isChar '_' ||
    foldsTo 's' r || foldsTo 'k' r

end Pattern

end Asm68k
