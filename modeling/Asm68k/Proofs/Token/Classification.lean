import Asm68k.Proofs.Lexeme
import Asm68k.Statement

/-!
What the kind of a token depends on: its text, its place in the line, and how much of the statement
has been read.
-/

namespace Asm68k

/-! ### Kinds -/

namespace TokenKind

/-- The kinds that arguments have. -/
def isArgument : TokenKind → Bool
  | .operand _ | .quotation _ | .placeholder _ | .counter => true
  | .comment | .label | .mnemonic _ | .directive _ | .qualifier _ => false

/-- The kinds that operations have. -/
def isOperation : TokenKind → Bool
  | .mnemonic _ | .directive _ => true
  | kind => kind.isArgument

theorem isOperation_of_isArgument {kind : TokenKind} (h : kind.isArgument = true) :
    kind.isOperation = true := by
  cases kind <;> first | rfl | cases h

end TokenKind

namespace Token

open Lexeme

theorem isWord_eq (token : Token) : token.isWord = token.kind.isOperation := by
  obtain ⟨l, kind⟩ := token
  cases kind <;> rfl

theorem isArgument_plainKind (text : Bytes) (mode : Option Mode) :
    (plainKind text mode).isArgument = true := by
  unfold plainKind
  split
  · rfl
  · split
    · rfl
    · split
      · rfl
      · split <;> rfl

theorem isOperation_operationKind (text : Bytes) : (operationKind text).isOperation = true := by
  unfold operationKind
  split
  · rfl
  · split
    · rfl
    · exact TokenKind.isOperation_of_isArgument (isArgument_plainKind text none)

theorem isWord_plainKind (l : Lexeme) (text : Bytes) (mode : Option Mode) :
    (Token.mk l (plainKind text mode)).isWord = true := by
  rw [isWord_eq]
  exact TokenKind.isOperation_of_isArgument (isArgument_plainKind text mode)

theorem isWord_operationKind (l : Lexeme) (text : Bytes) :
    (Token.mk l (operationKind text)).isWord = true := by
  rw [isWord_eq]
  exact isOperation_operationKind text

/-! ### Pieces in their places -/

section

variable {stage : Stage} {i : Nat} {text : Bytes} {dot : Bool}

theorem classify_comment (comment : isComment text = true) :
    classify stage ⟨i, text, dot⟩ = (.comment, stage) := by
  simp [classify, comment]

theorem classify_label (word : isComment text = false) :
    classify stage ⟨0, text, dot⟩ = (.label, stage) := by
  simp [classify, word]

theorem classify_operation (word : isComment text = false) (past : 0 < i) :
    classify .beforeOperation ⟨i, text, dot⟩ =
      (operationKind text, .atOperation (operationKind text matches .mnemonic _)) := by
  have plain : ¬ isComment text = true := by simp [word]
  have inside : ¬ (i == 0) = true := by simp [Nat.ne_of_gt past]
  exact (if_neg plain).trans (if_neg inside)

theorem classify_qualifier {isMnemonic : Bool} {size : Size} (word : isComment text = false)
    (past : 0 < i) (known : qualifier? isMnemonic text = some size) :
    classify (.atOperation isMnemonic) ⟨i, text, true⟩ = (.qualifier size, .afterOperation) := by
  simp [classify, word, Nat.ne_of_gt past, known]

theorem classify_argument {isMnemonic : Bool} (word : isComment text = false) (past : 0 < i)
    (plain : dot = true → qualifier? isMnemonic text = none) :
    classify (.atOperation isMnemonic) ⟨i, text, dot⟩ = (argumentKind text, .afterOperation) := by
  cases dot with
  | false => simp [classify, word, Nat.ne_of_gt past]
  | true => simp [classify, word, Nat.ne_of_gt past, plain rfl]

theorem classify_atOperation {isMnemonic : Bool} (word : isComment text = false) (past : 0 < i) :
    (classify (.atOperation isMnemonic) ⟨i, text, dot⟩).2 = .afterOperation := by
  have plain : ¬ isComment text = true := by simp [word]
  have inside : ¬ (i == 0) = true := by simp [Nat.ne_of_gt past]
  rw [classify, if_neg plain, if_neg inside]
  split <;> rfl

theorem classify_atOperation_cases (isMnemonic dot : Bool) (word : isComment text = false)
    (past : 0 < i) :
    (∃ size, dot = true ∧ qualifier? isMnemonic text = some size ∧
      classify (.atOperation isMnemonic) ⟨i, text, dot⟩ = (.qualifier size, .afterOperation)) ∨
    classify (.atOperation isMnemonic) ⟨i, text, dot⟩ = (argumentKind text, .afterOperation) := by
  cases known : if dot then qualifier? isMnemonic text else none with
  | some size =>
    cases dot with
    | false => cases known
    | true => exact .inl ⟨size, rfl, known, classify_qualifier word past known⟩
  | none =>
    refine .inr (classify_argument word past ?_)
    rintro rfl
    exact known

theorem classify_later (word : isComment text = false) (past : 0 < i) :
    classify .afterOperation ⟨i, text, dot⟩ = (argumentKind text, .afterOperation) := by
  simp [classify, word, Nat.ne_of_gt past]

end

/-- An argument has its kind from its text alone, but for the mode. -/
theorem classify_isArgument {stage : Stage} {l : Lexeme}
    (argument : (classify stage l).1.isArgument = true) :
    ∃ mode, (classify stage l).1 = plainKind l.text mode := by
  obtain ⟨i, text, dot⟩ := l
  cases comment : isComment text with
  | true =>
    rw [classify_comment comment] at argument
    cases argument
  | false =>
    rcases Nat.eq_zero_or_pos i with rfl | past
    · rw [classify_label comment] at argument
      cases argument
    cases stage with
    | beforeOperation =>
      rw [classify_operation comment past] at argument ⊢
      dsimp only [operationKind] at argument ⊢
      split at argument
      · cases argument
      · split at argument
        · cases argument
        · exact ⟨none, rfl⟩
    | atOperation isMnemonic =>
      rcases classify_atOperation_cases isMnemonic dot comment past with ⟨size, -, -, here⟩ | here
      · rw [here] at argument
        cases argument
      · rw [here]
        exact ⟨_, rfl⟩
    | afterOperation =>
      rw [classify_later comment past]
      exact ⟨_, rfl⟩

theorem isComment_of_takes {scan : Scan} {i : Nat} (rest : scan.AtRest) {text : Bytes}
    (taken : scan.Takes i text) : isComment text = false := by
  cases text with
  | nil => rfl
  | cons b text =>
    have first := taken.1
    by_cases semicolon : b = ';'.toUInt8
    · rw [Scan.note_of_mark (.inl semicolon)] at first
      simp [Scan.breaks, rest.sheltered, semicolon] at first
    · by_cases star : b = '*'.toUInt8
      · rw [Scan.note_of_mark (.inr (.inl star))] at first
        simp [Scan.breaks, rest.sheltered, rest.piece, star] at first
      · simp [isComment, semicolon, star]

theorem ofLexemes_cons (stage : Stage) (l : Lexeme) (pieces : List Lexeme) :
    ofLexemes stage (l :: pieces) =
      ⟨l, (classify stage l).1⟩ :: ofLexemes (classify stage l).2 pieces := rfl

theorem map_lexeme_ofLexemes (stage : Stage) (pieces : List Lexeme) :
    (ofLexemes stage pieces).map lexeme = pieces := by
  induction pieces generalizing stage with
  | nil => rfl
  | cons l pieces ih => rw [ofLexemes_cons, List.map_cons, ih]

theorem exists_stage {stage : Stage} {pieces : List Lexeme} {token : Token}
    (member : token ∈ ofLexemes stage pieces) :
    ∃ stage, token.kind = (classify stage token.lexeme).1 := by
  induction pieces generalizing stage with
  | nil => cases member
  | cons l pieces ih =>
    rcases List.mem_cons.mp member with rfl | later
    · exact ⟨stage, rfl⟩
    · exact ih later

theorem exists_plainKind {line : Bytes} {token : Token} (member : token ∈ ofLine line)
    (argument : token.kind.isArgument = true) : ∃ mode, token.kind = plainKind token.text mode := by
  obtain ⟨stage, kind⟩ := exists_stage member
  rw [kind] at argument ⊢
  exact classify_isArgument argument

end Token

end Asm68k
