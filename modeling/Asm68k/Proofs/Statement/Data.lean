import Mathlib.Algebra.Ring.Nat
import Asm68k.Statement.Length
import Asm68k.Proofs.Expression.Acceptance
import Asm68k.Proofs.Token.Grammar
import Asm68k.Proofs.Token.Quotation

/-!
Data in bytes. Quoted bytes are stored as they are: `ofLine_dataLine`. An expression takes one byte
unless it begins with a quotation mark. Then it is counted as if all of it were quoted, which is
never one byte: `length_expression`.
-/

namespace Asm68k

/-- The number of bytes that an operand takes among data in bytes. -/
def OperandKind.dataLength : OperandKind → Nat
  | .quotation contents => contents.length
  | _ => 1

def Operand.dataLength (operand : Operand) : Nat := operand.kind.dataLength

def Operand.beginsQuoted (operand : Operand) : Bool :=
  operand.text.head?.any Lexeme.Scan.isQuoteMark

namespace Statement

/-- The statement gives data in bytes, which is also what data without a size is. -/
def isByteData (statement : Statement) : Bool :=
  match statement.opcode with
  | some ⟨.directive .dc, _, size⟩ => size.all (· == .byte)
  | some ⟨.directive .db, _, _⟩ => true
  | _ => false

theorem length_of_isByteData {statement : Statement} (data : statement.isByteData = true)
    (symbols : Bytes → Option Int64) :
    statement.length symbols = Int64.ofNat (statement.operands.map Operand.dataLength).sum := by
  unfold isByteData at data
  unfold length
  split at data
  · rename_i size spelled
    rw [spelled]
    cases size with
    | none => rfl
    | some size =>
      obtain rfl : size = .byte := by simpa using data
      rfl
  · rename_i spelled
    rw [spelled]
    rfl
  · cases data

/-! ### Quoted data -/

def dataLine (quotations : List Quotation) (remark : Remark) : Bytes :=
  Bytes.ofString " dc.b " ++ (Bytes.join [','.toUInt8] (quotations.map Quotation.text) ++
    (remark.blanks ++ remark.comment))

/-- The tokens of such a line, without regard to their positions. -/
def dataTokens (quotations : List Quotation) (remark : Remark) : List Token :=
  ⟨⟨0, Bytes.ofString "dc", false⟩, .directive .dc⟩ ::
    ⟨⟨0, Bytes.ofString "b", true⟩, .qualifier .byte⟩ ::
      (quotations.map Quotation.token ++ remark.tokens)

open Lexeme in
theorem map_meaning_dataLine (quotations : List Quotation) (remark : Remark) :
    (Token.ofLine (dataLine quotations remark)).map Token.meaning =
      (dataTokens quotations remark).map Token.meaning := by
  have spelled : Bytes.ofString " dc.b " =
      [' ', 'd', 'c', '.', 'b', ' '].map Char.toUInt8 := by decide +kernel
  have lexemes (rest : Bytes) : Lexeme.ofLine (Bytes.ofString " dc.b " ++ rest) =
      ⟨1, Bytes.ofString "dc", false⟩ :: ⟨4, Bytes.ofString "b", true⟩ ::
        scanFrom ⟨none, 0, none, false, true⟩ 6 rest := by
    rw [spelled]
    rfl
  have operation : Token.classify .beforeOperation ⟨1, Bytes.ofString "dc", false⟩ =
      (.directive .dc, .atOperation false) := by decide +kernel
  have size : Token.classify (.atOperation false) ⟨4, Bytes.ofString "b", true⟩ =
      (.qualifier .byte, .afterOperation) := by decide +kernel
  have idle : Scan.AtRest ⟨none, 0, none, false, true⟩ := ⟨rfl, rfl⟩
  rw [Token.ofLine, dataLine, lexemes, Token.ofLexemes_cons, operation, Token.ofLexemes_cons, size,
    List.map_cons, List.map_cons, Token.map_meaning_quotations quotations remark idle (by decide)]
  rfl

theorem ofTokens_dataTokens (text : Bytes) (quotations : List Quotation) (remark : Remark) :
    ofTokens text (dataTokens quotations remark) =
      ⟨text, none, some ⟨.directive .dc, 0, some .byte⟩,
        quotations.map (fun q => ⟨q.text, 0, .quotation q.contents⟩), remark.comment⟩ := by
  have words : (quotations.map Quotation.token ++ remark.tokens).filter Token.isWord =
      quotations.map Quotation.token := by
    rw [List.filter_append, List.filter_eq_self.mpr, List.filter_eq_nil_iff.mpr, List.append_nil]
    · unfold Remark.tokens
      split <;> simp [Token.isWord]
    · simp [Quotation.token, Token.isWord]
  have label : (quotations.map Quotation.token ++ remark.tokens).findSome? Token.label? = none := by
    unfold Remark.tokens
    split <;> simp [Quotation.token, Token.label?]
  have comment : ((quotations.map Quotation.token ++ remark.tokens).findSome?
      Token.comment?).getD [] = remark.comment := by
    have none_quoted : (quotations.map Quotation.token).findSome? Token.comment? = none := by
      simp [Quotation.token, Token.comment?]
    rw [List.findSome?_append, none_quoted, Option.none_or]
    unfold Remark.tokens
    split
    · simp_all
    · rfl
  have size : (dataTokens quotations remark).findSome? Token.size? = some .byte := rfl
  have filtered : (dataTokens quotations remark).filter Token.isWord =
      ⟨⟨0, Bytes.ofString "dc", false⟩, .directive .dc⟩ :: quotations.map Quotation.token :=
    congrArg (_ :: ·) words
  have operands : (quotations.map Quotation.token).map Token.operand =
      quotations.map fun q => ⟨q.text, 0, .quotation q.contents⟩ := by
    rw [List.map_map]
    rfl
  rw [ofTokens, filtered, size, List.tail_cons, operands]
  congr

/-- Any bytes can be stored by quoting them, whatever follows as a comment. -/
theorem ofLine_dataLine (quotations : List Quotation) (remark : Remark) :
    (ofLine (dataLine quotations remark)).label = none ∧
      (ofLine (dataLine quotations remark)).opcode.map
        (fun opcode => (opcode.operation, opcode.size)) = some (.directive .dc, some .byte) ∧
      (ofLine (dataLine quotations remark)).operands.map
        (fun operand => (operand.text, operand.kind)) =
          quotations.map (fun q => (q.text, .quotation q.contents)) ∧
      (ofLine (dataLine quotations remark)).comment = remark.comment ∧
      ∀ symbols, (ofLine (dataLine quotations remark)).length symbols =
        Int64.ofNat (quotations.map fun q => q.contents.length).sum := by
  have alike : (ofLine (dataLine quotations remark)).Alike _ :=
    alike_ofTokens (map_meaning_dataLine quotations remark) _ []
  rw [ofTokens_dataTokens] at alike
  have unlabelled := Option.map_eq_none_iff.mp alike.label
  have operands := alike.operands
  dsimp only at operands
  rw [List.map_map] at operands
  refine ⟨unlabelled, alike.opcode, operands, alike.comment, ?_⟩
  intro symbols
  have data : (ofLine (dataLine quotations remark)).isByteData = true := by
    obtain ⟨⟨operation, start, size⟩, spelled, same⟩ := Option.map_eq_some_iff.mp alike.opcode
    cases same
    rw [isByteData, spelled]
    rfl
  have lengths := congrArg (List.map fun pair => pair.2.dataLength) operands
  rw [List.map_map, List.map_map] at lengths
  rw [length_of_isByteData data]
  exact congrArg (fun ns => Int64.ofNat (List.sum ns)) lengths

example :
    dataLine [⟨'\''.toUInt8, Bytes.ofString "it's", rfl⟩, ⟨'"'.toUInt8, Bytes.ofString "(';", rfl⟩]
      ⟨[], [], nofun, nofun⟩ =
    Bytes.ofString " dc.b 'it''s',\"(';\"" := by
  decide +kernel

/-! ### Expressions -/

/-- Each operand counts for itself. -/
theorem length_of_among {statement : Statement} {before after : List Operand} {operand : Operand}
    (data : statement.isByteData = true) (among : statement.operands = before ++ operand :: after)
    (symbols : Bytes → Option Int64) :
    statement.length symbols =
      { statement with operands := before ++ after }.length symbols +
        Int64.ofNat operand.dataLength := by
  have others : { statement with operands := before ++ after }.isByteData = true := data
  rw [length_of_isByteData data, length_of_isByteData others, ← Int64.ofNat_add, among]
  simp only [List.map_append, List.map_cons, List.sum_append, List.sum_cons]
  congr 1
  omega

theorem dataLength_of_mem {line : Bytes} {operand : Operand}
    (member : operand ∈ (ofLine line).operands) :
    operand.dataLength = match operand.text with
      | [] => 1
      | b :: rest => if Lexeme.Scan.isQuoteMark b then (Token.contents b rest).length else 1 := by
  obtain ⟨parts, tokens, -⟩ := Token.exists_parts line
  rw [ofLine, tokens, (ofTokens_parts parts).2] at member
  obtain ⟨token, among, rfl⟩ := List.mem_map.mp member
  obtain ⟨inside, argument⟩ := Parts.mem_arguments among
  rw [← tokens] at inside
  obtain ⟨mode, kind⟩ := Token.exists_plainKind inside argument
  show token.operandKind.dataLength = match token.text with | [] => 1 | b :: rest => _
  rw [Token.operandKind, kind]
  cases token.text with
  | nil => cases mode <;> rfl
  | cons b rest =>
    unfold Token.plainKind
    by_cases quote : Lexeme.Scan.isQuoteMark b = true
    · simp only [quote, if_true, OperandKind.dataLength]
    · simp only [quote]
      split_ifs <;> cases mode <;> rfl

/-- The literal that is evaluated first ends before the operator, and the contents of a quotation go
on there. -/
theorem one_lt_length_contents {b : UInt8} {rest : Bytes} {known : Bytes → Option Int64} {v : Int64}
    {op : Expression.Operator} (quote : Lexeme.Scan.isQuoteMark b = true)
    (accepted : Expression.evaluate known (b :: rest) = .ok v)
    (operator : .operator op ∈ Expression.Item.ofText (Expression.bare (b :: rest))) :
    1 < (Token.contents b rest).length := by
  have mark : b = '\''.toUInt8 ∨ b = '"'.toUInt8 := by
    simpa [Lexeme.Scan.isQuoteMark, or_comm] using quote
  have plain : Bytes.IsInk b ∧ b ≠ '#'.toUInt8 := by
    rcases mark with rfl | rfl <;> decide
  obtain ⟨program, compiled⟩ := Expression.compile_of_evaluate accepted
  obtain ⟨kept, dropped, shown, rfl⟩ := Expression.bare_cons plain.1 plain.2 rest
  rw [shown] at compiled operator
  obtain ⟨bytes, after, rfl, inner, least, more⟩ :=
    Expression.Item.exists_quoted mark (Expression.compile_good compiled) operator
  have longer := Token.length_contents inner (List.append_ne_nil_of_left_ne_nil more dropped)
  rw [List.append_assoc, List.cons_append]
  omega

/-- A byte that is given by an expression takes the length of one byte exactly if the expression
does not begin with a quotation mark. -/
theorem length_expression {line : Bytes} {before after : List Operand} {operand : Operand}
    {known : Bytes → Option Int64} {v : Int64} {op : Expression.Operator}
    (data : (ofLine line).isByteData = true)
    (among : (ofLine line).operands = before ++ operand :: after)
    (accepted : Expression.evaluate known operand.text = .ok v)
    (operator : .operator op ∈ Expression.Item.ofText (Expression.bare operand.text)) :
    (∀ symbols, (ofLine line).length symbols =
      { ofLine line with operands := before ++ after }.length symbols +
        Int64.ofNat operand.dataLength) ∧
    (operand.dataLength = 1 ↔ operand.beginsQuoted = false) := by
  refine ⟨length_of_among data among, ?_⟩
  have member : operand ∈ (ofLine line).operands := by
    rw [among]
    exact List.mem_append_right _ List.mem_cons_self
  rw [dataLength_of_mem member, Operand.beginsQuoted]
  cases written : operand.text with
  | nil => simp
  | cons b rest =>
    by_cases quote : Lexeme.Scan.isQuoteMark b = true
    · rw [written] at accepted operator
      have longer := one_lt_length_contents quote accepted operator
      simp only [quote, if_true, List.head?_cons, Option.any_some]
      constructor
      · intro single
        omega
      · intro impossible
        cases impossible
    · simp [quote]

/-- An operator may come before the mark. -/
theorem length_expression_mixed :
    let line := Bytes.ofString " dc.b 1+'A','xyz'"
    let sum : Operand := ⟨Bytes.ofString "1+'A'", 6, .address .absLong none⟩
    let word : Operand := ⟨Bytes.ofString "'xyz'", 12, .quotation (Bytes.ofString "xyz")⟩
    ((ofLine line).isByteData = true ∧ (ofLine line).operands = [] ++ sum :: [word] ∧
      Expression.evaluate (fun _ => none) sum.text = .ok 66 ∧
      .operator (.binary .add) ∈ Expression.Item.ofText (Expression.bare sum.text)) ∧
    (∀ symbols, (ofLine line).length symbols =
      { ofLine line with operands := [] ++ [word] }.length symbols +
        Int64.ofNat sum.dataLength) ∧
    (sum.dataLength = 1 ↔ sum.beginsQuoted = false) := by
  intro line sum word
  have parsed : ofLine line =
      ⟨line, none, some ⟨.directive .dc, 1, some .byte⟩, [sum, word], []⟩ := by decide +kernel
  have data : (ofLine line).isByteData = true := by
    rw [parsed]
    rfl
  have among : (ofLine line).operands = [] ++ sum :: [word] := by
    rw [parsed]
    rfl
  have accepted : Expression.evaluate (fun _ => none) sum.text = .ok 66 := by decide +kernel
  have operator : .operator (.binary .add) ∈
      Expression.Item.ofText (Expression.bare sum.text) := by decide +kernel
  exact ⟨⟨data, among, accepted, operator⟩, length_expression data among accepted operator⟩

/-- Four bytes are counted for the one byte of a sum that begins with a letter in marks. -/
theorem length_quotedSum :
    let line := Bytes.ofString " dc.b 'A'+1"
    let sum : Operand := ⟨Bytes.ofString "'A'+1", 6, .quotation (Bytes.ofString "A'+1")⟩
    ((ofLine line).isByteData = true ∧ (ofLine line).operands = [sum] ∧
      Expression.evaluate (fun _ => none) sum.text = .ok 66 ∧
      .operator (.binary .add) ∈ Expression.Item.ofText (Expression.bare sum.text)) ∧
    ∀ symbols, (ofLine line).length symbols = 4 ∧
      { ofLine line with operands := [] }.length symbols = 0 := by
  intro line sum
  have parsed : ofLine line =
      ⟨line, none, some ⟨.directive .dc, 1, some .byte⟩, [sum], []⟩ := by decide +kernel
  rw [parsed]
  exact ⟨⟨rfl, rfl, by decide +kernel, by decide +kernel⟩, fun symbols => ⟨rfl, rfl⟩⟩

end Statement

end Asm68k
