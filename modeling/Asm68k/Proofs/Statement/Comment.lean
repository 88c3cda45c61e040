import Asm68k.Proofs.Token.Spans
import Asm68k.Statement.Length
import Asm68k.Statement.Times

/-!
Comments. A semicolon outside of quotations and parentheses ends whatever the walk is in the middle
of, as the end of the line does, and the rest of the line is one piece. So a statement is what it is
without its comment: `ofLine_commented`.
-/

namespace Asm68k

namespace Lexeme

/-! ### The scan at the end of a text -/

namespace Scan

/-- Whether a comment begins with the byte. -/
def beginsComment (scan : Scan) (b : UInt8) : Bool :=
  !(scan.note b).isSheltered && (b == ';'.toUInt8 || (b == '*'.toUInt8 && scan.piece.isNone))

/-- The scan behind a byte at position `i` that begins no comment. -/
def next (scan : Scan) (i : Nat) (b : UInt8) : Scan :=
  let scan := scan.note b
  if scan.isSheltered then scan.take i b
  else if b == '='.toUInt8 then { scan.close false with operationDone := true }
  else if isSeparator b then scan.close false
  else if b == '.'.toUInt8 && scan.splitsOnDot then scan.close true
  else scan.take i b

/-- The pieces that are complete with such a byte. -/
def completed (scan : Scan) (i : Nat) (b : UInt8) : List Lexeme :=
  let scan := scan.note b
  if scan.isSheltered then []
  else if b == '='.toUInt8 then scan.finished ++ [⟨i, [b], false⟩]
  else if isSeparator b || (b == '.'.toUInt8 && scan.splitsOnDot) then scan.finished
  else []

/-- The scan at the end of a text from position `i` on. The walk goes no further than to a comment. -/
def atEnd (scan : Scan) (i : Nat) : Bytes → Scan
  | [] => scan
  | b :: rest => if scan.beginsComment b then scan else (scan.next i b).atEnd (i + 1) rest

end Scan

section

variable {scan : Scan} {i : Nat} {b : UInt8}

theorem scanFrom_next (plain : scan.beginsComment b = false) (rest : Bytes) :
    scanFrom scan i (b :: rest) = scan.completed i b ++ scanFrom (scan.next i b) (i + 1) rest := by
  unfold Scan.beginsComment at plain
  rw [scanFrom]
  unfold Scan.completed Scan.next
  dsimp only
  cases sheltered : (scan.note b).isSheltered with
  | true => rfl
  | false =>
    rw [sheltered, Bool.not_false, Bool.true_and] at plain
    simp only [Scan.note_piece, plain, Bool.false_eq_true, if_false]
    split
    · rw [List.append_assoc]
      rfl
    · cases Scan.isSeparator b with
      | true => rfl
      | false =>
        simp only [Bool.false_or, Bool.false_eq_true, if_false]
        split <;> rfl

theorem beginsComment_cases (begins : scan.beginsComment b = true) :
    scan.isSheltered = false ∧ (b = ';'.toUInt8 ∨ b = '*'.toUInt8 ∧ scan.piece = none) := by
  simp only [Scan.beginsComment, Bool.and_eq_true, Bool.not_eq_true', Bool.or_eq_true, beq_iff_eq,
    Option.isNone_iff_eq_none] at begins
  obtain ⟨unsheltered, mark⟩ := begins
  rw [Scan.note_of_mark (mark.imp_right fun star => .inl star.1)] at unsheltered
  exact ⟨unsheltered, mark⟩

end

/-! ### A comment at the end -/

/-- The pieces of a text before and after a comment is added at position `i`. The comment is a piece
of its own, or it goes on with the one that is there. -/
inductive Commented (comment : Bytes) (i : Nat) : List Lexeme → List Lexeme → Prop where
  | added (pieces : List Lexeme) : Commented comment i pieces (pieces ++ [⟨i, comment, false⟩])
  | extended (pieces : List Lexeme) (start : Nat) {begun : Bytes}
      (isComment : Token.isComment begun = true) :
      Commented comment i (pieces ++ [⟨start, begun, false⟩])
        (pieces ++ [⟨start, begun ++ comment, false⟩])

theorem Commented.after {comment : Bytes} {i : Nat} {pieces pieces' : List Lexeme}
    (commented : Commented comment i pieces pieces') (front : List Lexeme) :
    Commented comment i (front ++ pieces) (front ++ pieces') := by
  cases commented with
  | added =>
    rw [← List.append_assoc]
    exact .added _
  | extended pieces start isComment =>
    rw [← List.append_assoc, ← List.append_assoc]
    exact .extended _ start isComment

theorem scanFrom_commented {scan : Scan} {i : Nat} {text : Bytes}
    (outside : (scan.atEnd i text).isSheltered = false) (comment : Bytes) :
    Commented (';'.toUInt8 :: comment) (i + text.length) (scanFrom scan i text)
      (scanFrom scan i (text ++ ';'.toUInt8 :: comment)) := by
  induction text generalizing scan i with
  | nil =>
    have unsheltered : scan.isSheltered = false := outside
    rw [List.nil_append, scanFrom_comment unsheltered (.inl rfl)]
    exact .added _
  | cons b rest ih =>
    rw [List.cons_append]
    cases begins : scan.beginsComment b with
    | true =>
      obtain ⟨unsheltered, mark⟩ := beginsComment_cases begins
      have isComment : Token.isComment (b :: rest) = true := by
        rcases mark with rfl | ⟨rfl, -⟩ <;> simp [Token.isComment]
      rw [scanFrom_comment unsheltered mark, scanFrom_comment unsheltered mark]
      exact .extended _ i isComment
    | false =>
      rw [Scan.atEnd, begins] at outside
      have later := ih outside
      rw [Nat.add_right_comm] at later
      rw [scanFrom_next begins, scanFrom_next begins]
      exact later.after _

/-- Only the last piece can be a comment. -/
theorem Cut.not_isComment {dot : Bool} {i : Nat} {text : Bytes} {pieces : List Lexeme} {last : Lexeme}
    (cut : Cut dot i text (pieces ++ [last])) : ∀ l ∈ pieces, Token.isComment l.text = false := by
  generalize whole : pieces ++ [last] = all at cut
  induction cut generalizing pieces with
  | nil => exact absurd whole (List.append_ne_nil_of_right_ne_nil _ (List.cons_ne_nil _ _))
  | gap _ _ ih => exact ih whole
  | comment =>
    cases pieces with
    | nil => exact List.forall_mem_nil _
    | cons l pieces => simp at whole
  | piece _ word _ _ ih =>
    cases pieces with
    | nil => exact List.forall_mem_nil _
    | cons l pieces =>
      obtain ⟨rfl, others⟩ := List.cons.inj whole
      exact List.forall_mem_cons.mpr ⟨word, ih others⟩

end Lexeme

/-! ### Tokens and statements -/

namespace Token

theorem isComment_append {text : Bytes} (comment : isComment text = true) (rest : Bytes) :
    isComment (text ++ rest) = true := by
  cases text with
  | nil => cases comment
  | cons b text => exact comment

theorem ofLexemes_concat {l : Lexeme} (comment : isComment l.text = true) (stage : Stage)
    (pieces : List Lexeme) :
    ofLexemes stage (pieces ++ [l]) = ofLexemes stage pieces ++ [⟨l, .comment⟩] := by
  induction pieces generalizing stage with
  | nil =>
    have kind : classify stage l = _ := classify_comment comment
    rw [List.nil_append, ofLexemes_cons, kind]
    rfl
  | cons first pieces ih => rw [List.cons_append, ofLexemes_cons, ih, ofLexemes_cons, List.cons_append]

theorem classify_ne_comment {stage : Stage} {l : Lexeme} (word : isComment l.text = false) :
    (classify stage l).1 ≠ .comment := by
  have other {kind : TokenKind} (operation : kind.isOperation = true) : kind ≠ .comment := by
    rintro rfl
    cases operation
  obtain ⟨i, text, dot⟩ := l
  rcases Nat.eq_zero_or_pos i with rfl | past
  · rw [classify_label word]
    nofun
  have argument := TokenKind.isOperation_of_isArgument
    (isArgument_plainKind text (some (Mode.ofOperand text)))
  cases stage with
  | beforeOperation =>
    rw [classify_operation word past]
    exact other (isOperation_operationKind text)
  | atOperation isMnemonic =>
    rcases classify_atOperation_cases isMnemonic dot word past with ⟨size, -, -, here⟩ | here
    · rw [here]
      nofun
    · rw [here]
      exact other argument
  | afterOperation =>
    rw [classify_later word past]
    exact other argument

theorem comment?_ofLexemes (stage : Stage) {pieces : List Lexeme}
    (words : ∀ l ∈ pieces, isComment l.text = false) :
    ∀ token ∈ ofLexemes stage pieces, token.comment? = none := by
  intro token member
  have piece : token.lexeme ∈ pieces := by
    rw [← map_lexeme_ofLexemes stage pieces]
    exact List.mem_map_of_mem member
  obtain ⟨stage, kind⟩ := exists_stage member
  have other := @classify_ne_comment stage _ (words _ piece)
  rw [← kind] at other
  unfold comment?
  split
  · exact absurd ‹_› other
  · rfl

end Token

namespace Statement

theorem comment_ofTokens {tokens : List Token} (words : ∀ token ∈ tokens, token.comment? = none)
    (line : Bytes) : (ofTokens line tokens).comment = [] := by
  rw [ofTokens, List.findSome?_eq_none_iff.mpr words]
  rfl

theorem ofTokens_concat {tokens : List Token} (words : ∀ token ∈ tokens, token.comment? = none)
    (line : Bytes) (l : Lexeme) :
    ofTokens line (tokens ++ [⟨l, .comment⟩]) =
      { ofTokens line tokens with comment := l.text } := by
  have before : tokens.findSome? Token.comment? = none := List.findSome?_eq_none_iff.mpr words
  simp [ofTokens, List.findSome?_append, before, Token.label?, Token.size?, Token.isWord,
    Token.comment?, Token.text]

theorem ofLine_append_comment {text : Bytes}
    (outside : (Lexeme.Scan.initial.atEnd 0 text).isSheltered = false) (comment : Bytes) :
    ofLine (text ++ ';'.toUInt8 :: comment) =
      { ofLine text with
        text := text ++ ';'.toUInt8 :: comment
        comment := (ofLine text).comment ++ ';'.toUInt8 :: comment } := by
  have commented : Lexeme.Commented _ _ (Lexeme.ofLine text) (Lexeme.ofLine _) :=
    Lexeme.scanFrom_commented outside comment
  have cut := Lexeme.cut_ofLine (text ++ ';'.toUInt8 :: comment)
  unfold ofLine Token.ofLine
  generalize Lexeme.ofLine text = pieces, Lexeme.ofLine (text ++ ';'.toUInt8 :: comment) = pieces'
    at commented cut
  cases commented with
  | added =>
    have words := Token.comment?_ofLexemes .beforeOperation cut.not_isComment
    rw [Token.ofLexemes_concat rfl, ofTokens_concat words, comment_ofTokens words]
    rfl
  | extended pieces start isComment =>
    have words := Token.comment?_ofLexemes .beforeOperation cut.not_isComment
    rw [Token.ofLexemes_concat (Token.isComment_append isComment _),
      Token.ofLexemes_concat isComment, ofTokens_concat words, ofTokens_concat words]
    rfl

/-- Where the walk ends outside of quotations and parentheses, a comment can be added that changes
nothing but the comment. It goes on with the comment that is there; without one that is empty. -/
theorem ofLine_commented {text : Bytes} (unquoted : (Lexeme.Scan.initial.atEnd 0 text).quote = none)
    (shallow : (Lexeme.Scan.initial.atEnd 0 text).depth ≤ 0) (comment : Bytes) :
    let statement := ofLine text
    let commented := ofLine (text ++ ';'.toUInt8 :: comment)
    commented.kind = statement.kind ∧ commented.label = statement.label ∧
      commented.opcode = statement.opcode ∧ commented.operands = statement.operands ∧
      commented.key? = statement.key? ∧
      (∀ symbols, commented.length symbols = statement.length symbols ∧
        commented.times? symbols = statement.times? symbols) ∧
      commented.comment = statement.comment ++ ';'.toUInt8 :: comment := by
  intro statement commented
  have outside : (Lexeme.Scan.initial.atEnd 0 text).isSheltered = false := by
    simp [Lexeme.Scan.isSheltered, unquoted, shallow]
  have same : commented = { statement with text := _, comment := _ } :=
    ofLine_append_comment outside comment
  rw [same]
  exact ⟨rfl, rfl, rfl, rfl, rfl, fun symbols => ⟨rfl, rfl⟩, rfl⟩

/-- Marks in quotations begin nothing, and those in a comment mean nothing. -/
theorem ofLine_commented_quotations :
    let text := Bytes.ofString "text: dc.b 'it''s;',\"(\""
    let comment := Bytes.ofString " isn't (all"
    let commented := ofLine (text ++ ';'.toUInt8 :: comment)
    (Lexeme.Scan.initial.atEnd 0 text).quote = none ∧
      (Lexeme.Scan.initial.atEnd 0 text).depth ≤ 0 ∧ commented.operands.length = 2 ∧
      commented.operands = (ofLine text).operands ∧
      commented.comment = ';'.toUInt8 :: comment := by
  intro text comment commented
  have unquoted : (Lexeme.Scan.initial.atEnd 0 text).quote = none := by decide +kernel
  have shallow : (Lexeme.Scan.initial.atEnd 0 text).depth ≤ 0 := by decide +kernel
  have plain : (ofLine text).operands.length = 2 ∧ (ofLine text).comment = [] := by decide +kernel
  obtain ⟨-, -, -, operands, -, -, extended⟩ := ofLine_commented unquoted shallow comment
  refine ⟨unquoted, shallow, ?_, operands, ?_⟩
  · exact (congrArg List.length operands).trans plain.1
  · exact extended.trans (congrArg (· ++ _) plain.2)

end Statement

end Asm68k
