import Asm68k.Proofs.Bytes
import Asm68k.Proofs.Token.Spans

/-!
The grammar of a line. Its tokens are a label, an operation with a size and arguments, and a
comment, each of which may be missing (`Parts`). The tokens are classified one by one with a stage between
them, and a statement looks for its operation on its own; both come to the same parts:
`ofLine_parts`.
-/

namespace Asm68k

/-! ### Parts of a line -/

namespace Token

/-- The token is a single letter and follows on the operation after one dot. -/
structure Sizes (text : Bytes) (token opcode : Token) : Prop where
  kind : ∃ size, token.kind = .qualifier size
  letter : ∃ b, token.text = [b] ∧ Expression.Item.isLetter b = true
  start : token.start = opcode.stop + 1
  dot : text[opcode.stop]? = some '.'.toUInt8

structure EndsLine (line : Bytes) (token : Token) : Prop where
  kind : token.kind = .comment
  stop : token.stop = line.length

end Token

structure Clause (line : Bytes) where
  opcode : Token
  size : Option Token
  arguments : List Token
  isOperation : opcode.kind.isOperation = true
  sizes : ∀ token ∈ size, token.Sizes line opcode
  areArguments : ∀ token ∈ arguments, token.kind.isArgument = true

structure Parts (line : Bytes) where
  label : Option Token
  clause : Option (Clause line)
  comment : Option Token
  beginsLine : ∀ token ∈ label, token.kind = .label ∧ token.start = 0
  endsLine : ∀ token ∈ comment, token.EndsLine line

namespace Clause

variable {line : Bytes}

def tokens (clause : Clause line) : List Token :=
  clause.opcode :: (clause.size.toList ++ clause.arguments)

def size? (clause : Clause line) : Option Size := clause.size.bind Token.size?

end Clause

namespace Parts

variable {line : Bytes}

def tokens (parts : Parts line) : List Token :=
  parts.label.toList ++ (parts.clause.elim [] Clause.tokens ++ parts.comment.toList)

def opcode? (parts : Parts line) : Option Token := parts.clause.map Clause.opcode

def arguments (parts : Parts line) : List Token := parts.clause.elim [] Clause.arguments

end Parts

namespace Token

/-- The token that is classified as the operation: the stage before the operation ends with it. -/
def chosen : List Lexeme → Option Token
  | [] => none
  | l :: pieces =>
    if (classify .beforeOperation l).2 = .beforeOperation then chosen pieces
    else some ⟨l, (classify .beforeOperation l).1⟩

/-! ### The rest of a line -/

section

variable {line text before after : Bytes} {i : Nat}

theorem drop_of_append (remains : line.drop i = before ++ after) :
    line.drop (i + before.length) = after := by
  rw [← List.drop_drop, remains, List.drop_left]

theorem drop_of_cons {b : UInt8} (remains : line.drop i = b :: after) :
    line.drop (i + 1) = after := by
  rw [← List.drop_drop, remains]
  rfl

theorem ofLexemes_comment {l : Lexeme} (comment : isComment l.text = true) (stage : Stage) :
    ofLexemes stage [l] = [⟨l, .comment⟩] := by
  have kind : classify stage l = _ := classify_comment comment
  rw [ofLexemes_cons, kind]
  rfl

theorem chosen_comment {l : Lexeme} (comment : isComment l.text = true) : chosen [l] = none := by
  have kind : classify .beforeOperation l = _ := classify_comment comment
  rw [chosen, kind]
  rfl

theorem endsLine_comment {l : Lexeme} (comment : isComment l.text = true)
    (remains : line.drop l.start = l.text) :
    ∀ token ∈ some (Token.mk l .comment), token.EndsLine line := by
  rintro _ ⟨⟩
  refine ⟨rfl, ?_⟩
  have filled : 0 < l.text.length := by
    apply List.length_pos_iff.mpr
    intro empty
    rw [empty] at comment
    cases comment
  have length := congrArg List.length remains
  rw [List.length_drop] at length
  show l.start + l.text.length = line.length
  omega

theorem stop_pos {l : Lexeme} (filled : l.text ≠ []) : 0 < l.stop :=
  Nat.add_pos_right _ (List.length_pos_iff.mpr filled)

theorem qualifier?_letter {isMnemonic : Bool} {size : Size}
    (known : qualifier? isMnemonic text = some size) :
    ∃ b, text = [b] ∧ Expression.Item.isLetter b = true := by
  unfold qualifier? at known
  split at known
  · rename_i single
    obtain ⟨b, rfl⟩ := List.length_eq_one_iff.mp (beq_iff_eq.mp single)
    refine ⟨b, rfl, ?_⟩
    have checked := Bytes.forall_byte
      (p := fun b => (Size.ofText? [b]).isNone || Expression.Item.isLetter b) (by decide +kernel) b
    obtain ⟨found, spelled, -⟩ := Option.map_eq_some_iff.mp known
    rw [spelled] at checked
    exact checked
  · cases known

end

/-! ### Stages -/

section

open Lexeme

variable {line text : Bytes} {dot : Bool} {i : Nat} {pieces : List Lexeme}

theorem exists_arguments (cut : Cut dot i text pieces) (remains : line.drop i = text)
    (past : 0 < i) :
    ∃ (arguments : List Token) (comment : Option Token),
      ofLexemes .afterOperation pieces = arguments ++ comment.toList ∧
      (∀ token ∈ arguments, token.kind.isArgument = true) ∧
      ∀ token ∈ comment, token.EndsLine line := by
  induction cut with
  | nil => exact ⟨[], none, rfl, nofun, nofun⟩
  | gap _ _ ih => exact ih (drop_of_cons remains) (Nat.succ_pos _)
  | comment comment =>
    exact ⟨[], some _, ofLexemes_comment comment _, nofun, endsLine_comment comment remains⟩
  | @piece _ _ l _ _ filled word _ _ ih =>
    have kind : classify .afterOperation l = _ := classify_later word past
    obtain ⟨arguments, comment, tokens, areArguments, endsLine⟩ :=
      ih (drop_of_append (drop_of_append remains)) (Nat.add_pos_left (stop_pos filled) _)
    refine ⟨⟨l, argumentKind l.text⟩ :: arguments, comment, ?_, ?_, endsLine⟩
    · rw [ofLexemes_cons, kind, tokens]
      rfl
    · exact List.forall_mem_cons.mpr ⟨isArgument_plainKind _ _, areArguments⟩

/-- A size stands directly behind a dot or not at all. -/
theorem exists_size (isMnemonic : Bool) (cut : Cut dot i text pieces)
    (remains : line.drop i = text) (past : 0 < i) :
    ∃ (size : Option Token) (arguments : List Token) (comment : Option Token),
      ofLexemes (.atOperation isMnemonic) pieces =
        size.toList ++ (arguments ++ comment.toList) ∧
      (∀ token ∈ size, dot = true ∧ token.start = i ∧ (∃ size, token.kind = .qualifier size) ∧
        ∃ b, token.text = [b] ∧ Expression.Item.isLetter b = true) ∧
      (∀ token ∈ arguments, token.kind.isArgument = true) ∧
      ∀ token ∈ comment, token.EndsLine line := by
  induction cut with
  | nil => exact ⟨none, [], none, rfl, nofun, nofun, nofun⟩
  | gap _ _ ih =>
    obtain ⟨size, arguments, comment, tokens, sizes, others⟩ :=
      ih (drop_of_cons remains) (Nat.succ_pos _)
    refine ⟨size, arguments, comment, tokens, ?_, others⟩
    intro token member
    exact Bool.noConfusion (sizes token member).1
  | comment comment =>
    exact ⟨none, [], some _, ofLexemes_comment comment _, nofun, nofun,
      endsLine_comment comment remains⟩
  | @piece _ _ l _ _ filled word marked later _ =>
    obtain ⟨arguments, comment, tokens, areArguments, endsLine⟩ :=
      exists_arguments later (drop_of_append (drop_of_append remains))
        (Nat.add_pos_left (stop_pos filled) _)
    rcases classify_atOperation_cases isMnemonic l.afterDot word past with
      ⟨size, dotted, known, kind⟩ | kind
    · refine ⟨some ⟨l, .qualifier size⟩, arguments, comment, ?_, ?_, areArguments, endsLine⟩
      · rw [ofLexemes_cons, kind, tokens]
        rfl
      · rintro _ ⟨⟩
        exact ⟨marked dotted, rfl, ⟨size, rfl⟩, qualifier?_letter known⟩
    · refine ⟨none, ⟨l, argumentKind l.text⟩ :: arguments, comment, ?_, nofun, ?_, endsLine⟩
      · rw [ofLexemes_cons, kind, tokens]
        rfl
      · exact List.forall_mem_cons.mpr ⟨isArgument_plainKind _ _, areArguments⟩

theorem exists_clause (cut : Cut dot i text pieces) (remains : line.drop i = text) (past : 0 < i) :
    ∃ (clause : Option (Clause line)) (comment : Option Token),
      ofLexemes .beforeOperation pieces = clause.elim [] Clause.tokens ++ comment.toList ∧
      chosen pieces = clause.map Clause.opcode ∧ ∀ token ∈ comment, token.EndsLine line := by
  induction cut with
  | nil => exact ⟨none, none, rfl, rfl, nofun⟩
  | gap _ _ ih => exact ih (drop_of_cons remains) (Nat.succ_pos _)
  | comment comment =>
    exact ⟨none, some _, ofLexemes_comment comment _, chosen_comment comment,
      endsLine_comment comment remains⟩
  | @piece _ dotted l rest pieces filled word _ later _ =>
    have kind : classify .beforeOperation l = _ := classify_operation word past
    have behind : line.drop l.stop = ending dotted ++ rest := drop_of_append remains
    obtain ⟨size, arguments, comment, tokens, sizes, areArguments, endsLine⟩ :=
      exists_size _ later (drop_of_append behind) (Nat.add_pos_left (stop_pos filled) _)
    have sizes (token : Token) (member : token ∈ size) :
        token.Sizes line ⟨l, operationKind l.text⟩ := by
      obtain ⟨rfl, start, kind, letter⟩ := sizes token member
      refine ⟨kind, letter, start, ?_⟩
      have here := congrArg (·[0]?) behind
      rw [List.getElem?_drop] at here
      exact here
    refine ⟨some ⟨_, size, arguments, isOperation_operationKind _, sizes, areArguments⟩, comment,
      ?_, ?_, endsLine⟩
    · rw [ofLexemes_cons, kind, tokens, ← List.append_assoc]
      rfl
    · rw [chosen, kind]
      rfl

theorem exists_parts_of_cut (cut : Cut dot i text pieces) (remains : line.drop i = text)
    (first : i = 0) :
    ∃ parts : Parts line, ofLexemes .beforeOperation pieces = parts.tokens ∧
      chosen pieces = parts.opcode? := by
  cases cut with
  | nil => exact ⟨⟨none, none, none, nofun, nofun⟩, rfl, rfl⟩
  | gap _ later =>
    obtain ⟨clause, comment, tokens, found, endsLine⟩ :=
      exists_clause later (drop_of_cons remains) (Nat.succ_pos _)
    exact ⟨⟨none, clause, comment, nofun, endsLine⟩, tokens, found⟩
  | comment comment =>
    exact ⟨⟨none, none, some _, nofun, endsLine_comment comment remains⟩,
      ofLexemes_comment comment _, chosen_comment comment⟩
  | @piece _ _ l _ _ filled word _ later =>
    have kind : classify .beforeOperation l = (.label, .beforeOperation) := by
      simp [classify, word, first]
    obtain ⟨clause, comment, tokens, found, endsLine⟩ :=
      exists_clause later (drop_of_append (drop_of_append remains))
        (Nat.add_pos_left (stop_pos filled) _)
    refine ⟨⟨some ⟨l, .label⟩, clause, comment, ?_, endsLine⟩, ?_, ?_⟩
    · rintro _ ⟨⟩
      exact ⟨rfl, first⟩
    · rw [ofLexemes_cons, kind, tokens]
      rfl
    · rw [chosen, kind, if_pos rfl, found]
      rfl

end

theorem exists_parts (line : Bytes) :
    ∃ parts : Parts line, ofLine line = parts.tokens ∧
      chosen (Lexeme.ofLine line) = parts.opcode? :=
  exists_parts_of_cut (Lexeme.cut_ofLine line) rfl rfl

end Token

/-! ### Statements -/

theorem Token.size?_eq_none {token : Token} (h : token.kind.isOperation = true) :
    token.size? = none := by
  unfold Token.size?
  split
  · rename_i kind
    rw [kind] at h
    cases h
  · rfl

namespace Parts

variable {line : Bytes}

theorem mem_arguments {parts : Parts line} {token : Token}
    (member : token ∈ parts.arguments) :
    token ∈ parts.tokens ∧ token.kind.isArgument = true := by
  unfold arguments at member
  unfold tokens
  cases clause : parts.clause with
  | none =>
    rw [clause] at member
    cases member
  | some clause' =>
    rw [clause] at member
    refine ⟨?_, clause'.areArguments token member⟩
    have among : token ∈ clause'.tokens :=
      List.mem_cons_of_mem _ (List.mem_append_right _ member)
    exact List.mem_append_right _ (List.mem_append_left _ among)

theorem filter_isWord_tokens (parts : Parts line) :
    parts.tokens.filter Token.isWord =
      parts.clause.elim [] fun clause => clause.opcode :: clause.arguments := by
  have label : parts.label.toList.filter Token.isWord = [] := by
    apply List.filter_eq_nil_iff.mpr
    intro token member
    rw [Token.isWord_eq, (parts.beginsLine token (Option.mem_toList.mp member)).1]
    exact Bool.false_ne_true
  have comment : parts.comment.toList.filter Token.isWord = [] := by
    apply List.filter_eq_nil_iff.mpr
    intro token member
    rw [Token.isWord_eq, (parts.endsLine token (Option.mem_toList.mp member)).kind]
    exact Bool.false_ne_true
  rw [tokens, List.filter_append, List.filter_append, label, comment, List.nil_append,
    List.append_nil]
  cases parts.clause with
  | none => rfl
  | some clause =>
    have opcode : clause.opcode.isWord = true := clause.opcode.isWord_eq.trans clause.isOperation
    have size : clause.size.toList.filter Token.isWord = [] := by
      apply List.filter_eq_nil_iff.mpr
      intro token member
      obtain ⟨size, kind⟩ := (clause.sizes token (Option.mem_toList.mp member)).kind
      rw [Token.isWord_eq, kind]
      exact Bool.false_ne_true
    have arguments : clause.arguments.filter Token.isWord = clause.arguments := by
      apply List.filter_eq_self.mpr
      intro token member
      rw [Token.isWord_eq]
      exact TokenKind.isOperation_of_isArgument (clause.areArguments token member)
    show clause.tokens.filter Token.isWord = _
    rw [Clause.tokens, List.filter_cons_of_pos opcode, List.filter_append, size, arguments]
    rfl

theorem findSome?_size?_tokens (parts : Parts line) :
    parts.tokens.findSome? Token.size? = parts.clause.bind Clause.size? := by
  have label : parts.label.toList.findSome? Token.size? = none := by
    apply List.findSome?_eq_none_iff.mpr
    intro token member
    rw [Token.size?, (parts.beginsLine token (Option.mem_toList.mp member)).1]
  have comment : parts.comment.toList.findSome? Token.size? = none := by
    apply List.findSome?_eq_none_iff.mpr
    intro token member
    rw [Token.size?, (parts.endsLine token (Option.mem_toList.mp member)).kind]
  rw [tokens, List.findSome?_append, List.findSome?_append, label, comment, Option.none_or,
    Option.or_none]
  cases parts.clause with
  | none => rfl
  | some clause =>
    have arguments : clause.arguments.findSome? Token.size? = none := by
      apply List.findSome?_eq_none_iff.mpr
      intro token member
      apply Token.size?_eq_none
      exact TokenKind.isOperation_of_isArgument (clause.areArguments token member)
    show clause.tokens.findSome? Token.size? = clause.size?
    rw [Clause.tokens, List.findSome?_cons, Token.size?_eq_none clause.isOperation,
      List.findSome?_append, arguments, Option.or_none, Clause.size?]
    cases clause.size with
    | none => rfl
    | some token => simp

end Parts

namespace Statement

/-- The operation and the operands of a statement, from the parts of its line. -/
theorem ofTokens_parts {line : Bytes} (parts : Parts line) :
    (ofTokens line parts.tokens).opcode = parts.clause.map (fun clause =>
        ⟨clause.opcode.operation, clause.opcode.start, clause.size?⟩) ∧
      (ofTokens line parts.tokens).operands = parts.arguments.map Token.operand := by
  unfold ofTokens
  dsimp only
  rw [parts.filter_isWord_tokens, parts.findSome?_size?_tokens, Parts.arguments]
  cases parts.clause with
  | none => exact ⟨rfl, rfl⟩
  | some clause => exact ⟨rfl, rfl⟩

/-- The tokens of a line follow the grammar of statements. The operation of the statement is the
token that was classified as such, and its operands are the arguments. -/
theorem ofLine_parts (line : Bytes) :
    ∃ parts : Parts line, Token.ofLine line = parts.tokens ∧
      Token.chosen (Lexeme.ofLine line) = parts.opcode? ∧
      (ofLine line).opcode = parts.clause.map (fun clause =>
        ⟨clause.opcode.operation, clause.opcode.start, clause.size?⟩) ∧
      (ofLine line).operands = parts.arguments.map Token.operand := by
  obtain ⟨parts, tokens, found⟩ := Token.exists_parts line
  refine ⟨parts, tokens, found, ?_⟩
  rw [ofLine, tokens]
  exact ofTokens_parts parts

end Statement

end Asm68k
