import Asm68k.Proofs.Token.Classification

/-!
Where the tokens of a line stand. The walk puts every byte into one piece, or passes it between two
pieces (`Cut`). So the tokens follow on each other without overlap, each is the part of the line
between its ends, and what lies outside of them is separators and dots: `ofLine_tiles`.
-/

namespace Asm68k

namespace Lexeme

/-- A text at position `i` and the pieces it is cut into. The flag says that the text follows on a
separating dot; the first piece is marked with it at most where nothing stands between. -/
inductive Cut : Bool → Nat → Bytes → List Lexeme → Prop where
  | nil {dot : Bool} {i : Nat} : Cut dot i [] []
  | gap {dot : Bool} {i : Nat} {b : UInt8} {rest : Bytes} {pieces : List Lexeme}
      (separator : Scan.isSeparator b = true) (later : Cut false (i + 1) rest pieces) :
      Cut dot i (b :: rest) pieces
  | comment {dot : Bool} {l : Lexeme} (comment : Token.isComment l.text = true) :
      Cut dot l.start l.text [l]
  | piece {dot dotted : Bool} {l : Lexeme} {rest : Bytes} {pieces : List Lexeme}
      (filled : l.text ≠ []) (word : Token.isComment l.text = false)
      (marked : l.afterDot = true → dot = true)
      (later : Cut dotted (l.stop + (ending dotted).length) rest pieces) :
      Cut dot l.start (l.text ++ (ending dotted ++ rest)) (l :: pieces)

theorem walks_cut : Walks fun scan i text pieces => Cut scan.afterDot i text pieces where
  nil := .nil
  gap separator later := .gap separator later
  comment {scan i b rest} begins := by
    have comment : Token.isComment (b :: rest) = true := by
      rcases begins with rfl | rfl <;> simp [Token.isComment]
    exact .comment (l := ⟨i, b :: rest, false⟩) comment
  equals {scan i rest pieces} later := by
    have word : Token.isComment ['='.toUInt8] = false := by decide
    have unmarked (marked : false = true) : scan.afterDot = true := by cases marked
    exact .piece (l := ⟨i, ['='.toUInt8], false⟩) (List.cons_ne_nil _ _) word unmarked later
  last {scan i text} idle filled taken := by
    have word := Token.isComment_of_takes idle taken
    have cut : Cut scan.afterDot i (text ++ (ending false ++ [])) [⟨i, text, scan.afterDot⟩] :=
      .piece (l := ⟨i, text, scan.afterDot⟩) filled word id .nil
    simpa [ending] using cut
  word {scan i text rest pieces} dot idle filled taken _ _ later := by
    have word := Token.isComment_of_takes idle taken
    rw [Scan.afterDot_close_takeAll idle.piece filled] at later
    exact .piece (l := ⟨i, text, scan.afterDot⟩) filled word id later

theorem cut_ofLine (line : Bytes) : Cut false 0 line (ofLine line) := walks_cut.ofLine line

section

variable {dot : Bool} {i : Nat} {text : Bytes} {pieces : List Lexeme}

theorem Cut.split (cut : Cut dot i text pieces) {l : Lexeme} (member : l ∈ pieces) :
    l.text ≠ [] ∧
      ∃ before after, text = before ++ (l.text ++ after) ∧ l.start = i + before.length := by
  induction cut with
  | nil => cases member
  | @gap dot i b rest pieces separator later ih =>
    obtain ⟨filled, before, after, rfl, start⟩ := ih member
    refine ⟨filled, b :: before, after, rfl, ?_⟩
    rw [start, List.length_cons]
    omega
  | comment comment =>
    obtain rfl := List.mem_singleton.mp member
    refine ⟨?_, [], [], (List.append_nil _).symm, rfl⟩
    intro empty
    rw [empty] at comment
    cases comment
  | @piece dot dotted m rest pieces filled word marked later ih =>
    rcases List.mem_cons.mp member with rfl | member
    · exact ⟨filled, [], ending dotted ++ rest, rfl, rfl⟩
    · obtain ⟨filled, before, after, rfl, start⟩ := ih member
      refine ⟨filled, m.text ++ (ending dotted ++ before), after, by simp, ?_⟩
      rw [start, List.length_append, List.length_append, stop]
      omega

theorem Cut.pairwise (cut : Cut dot i text pieces) :
    pieces.Pairwise fun l m => l.stop ≤ m.start := by
  induction cut with
  | nil => exact .nil
  | gap _ _ ih => exact ih
  | comment => exact List.pairwise_singleton _ _
  | piece _ _ _ later ih =>
    refine .cons ?_ ih
    intro m member
    obtain ⟨-, before, -, -, start⟩ := later.split member
    omega

/-- A byte that lies in no piece separates. -/
theorem Cut.between (cut : Cut dot i text pieces) {k : Nat} {b : UInt8} (here : text[k]? = some b)
    (outside : ∀ l ∈ pieces, ¬(l.start ≤ i + k ∧ i + k < l.stop)) :
    Scan.isSeparator b = true ∨ b = '.'.toUInt8 := by
  induction cut generalizing k with
  | nil => cases here
  | @gap dot i c rest pieces separator later ih =>
    cases k with
    | zero =>
      obtain rfl := Option.some.inj here
      exact .inl separator
    | succ k =>
      have index : i + (k + 1) = i + 1 + k := by omega
      rw [index] at outside
      exact ih here outside
  | @comment dot l comment =>
    have inside := (List.getElem?_eq_some_iff.mp here).1
    exact absurd ⟨Nat.le_add_right _ _, Nat.add_lt_add_left inside _⟩ (outside l List.mem_cons_self)
  | @piece dot dotted l rest pieces filled word marked later ih =>
    have past : l.text.length ≤ k := by
      apply Nat.le_of_not_lt
      intro inside
      refine outside l List.mem_cons_self ⟨Nat.le_add_right _ _, ?_⟩
      rw [stop]
      omega
    rw [List.getElem?_append_right past] at here
    by_cases ended : k - l.text.length < (ending dotted).length
    · rw [List.getElem?_append_left ended] at here
      have member := List.mem_of_getElem? here
      cases dotted with
      | false => cases member
      | true => exact .inr (List.mem_singleton.mp member)
    · have beyond : (ending dotted).length ≤ k - l.text.length := Nat.not_lt.mp ended
      rw [List.getElem?_append_right beyond] at here
      have index : l.stop + (ending dotted).length + (k - l.text.length - (ending dotted).length) =
          l.start + k := by
        rw [stop]
        omega
      refine ih here fun m member => ?_
      rw [index]
      exact outside m (List.mem_cons_of_mem _ member)

end

end Lexeme

namespace Token

open Lexeme

/-- The end of a token, as a position in its line. -/
def stop (token : Token) : Nat := token.lexeme.stop

/-- The bytes that may stand between tokens. -/
def gapBytes : Bytes := Bytes.ofString " \t,:."

/-- The tokens are parts of the text, in their order and without overlap, and all of it is in one of
them but for separators and dots. -/
structure Tiles (tokens : List Token) (text : Bytes) : Prop where
  filled : ∀ token ∈ tokens, token.text ≠ []
  inside : ∀ token ∈ tokens, token.start < token.stop ∧ token.stop ≤ text.length
  sliced : ∀ token ∈ tokens, token.text = text.extract token.start token.stop
  ordered : tokens.Pairwise fun token later => token.stop ≤ later.start
  between : ∀ (i : Nat) (inside : i < text.length),
    (∀ token ∈ tokens, ¬(token.start ≤ i ∧ i < token.stop)) → text[i] ∈ gapBytes

theorem mem_gapBytes {b : UInt8} (h : Scan.isSeparator b = true ∨ b = '.'.toUInt8) :
    b ∈ gapBytes := by
  simp only [Scan.isSeparator, Bool.or_eq_true, beq_iff_eq] at h
  rcases h with (((rfl | rfl) | rfl) | rfl) | rfl <;> decide

theorem ofLine_tiles (line : Bytes) : Tiles (ofLine line) line := by
  have cut := Lexeme.cut_ofLine line
  have pieces : (ofLine line).map lexeme = Lexeme.ofLine line := map_lexeme_ofLexemes _ _
  have split {token : Token} (member : token ∈ ofLine line) :=
    cut.split (pieces ▸ List.mem_map_of_mem member)
  refine ⟨fun token member => (split member).1, ?_, ?_, ?_, ?_⟩
  · intro token member
    obtain ⟨filled, before, after, rfl, start⟩ := split member
    have length := List.length_pos_iff.mpr filled
    simp only [Token.start, stop, Lexeme.stop, List.length_append]
    omega
  · intro token member
    obtain ⟨filled, before, after, rfl, start⟩ := split member
    rw [Nat.zero_add] at start
    simp [Token.text, Token.start, stop, Lexeme.stop, start]
  · have ordered := cut.pairwise
    rw [← pieces, List.pairwise_map] at ordered
    exact ordered
  · intro i inside outside
    refine mem_gapBytes (cut.between (List.getElem?_eq_getElem inside) ?_)
    intro l member
    rw [← pieces] at member
    obtain ⟨token, among, rfl⟩ := List.mem_map.mp member
    rw [Nat.zero_add]
    exact outside token among

end Token

end Asm68k
