import Asm68k.Proofs.Letters
import Asm68k.Proofs.Statement.Alike

/-!
Statements whose letters change case. The pieces of a line stay where they are and keep their kinds,
so lines that differ only in the case of letters have one operation and operands of one form, and
instructions among them one length, one key and one number of registers: `ofLine_recased`.
-/

namespace Asm68k

open Bytes (small_beq)

/-! ### Pieces -/

namespace Lexeme

/-- The piece with its capital letters made small. -/
def small (l : Lexeme) : Lexeme := { l with text := l.text.map Bytes.small }

namespace Scan

def small (scan : Scan) : Scan :=
  { scan with piece := scan.piece.map fun (start, bytes) => (start, bytes.map Bytes.small) }

theorem isQuoteMark_small (b : UInt8) : isQuoteMark (Bytes.small b) = isQuoteMark b :=
  Bytes.apply_small (by decide) b

theorem isSeparator_small (b : UInt8) : isSeparator (Bytes.small b) = isSeparator b :=
  Bytes.apply_small (by decide) b

theorem small_of_isQuoteMark {b : UInt8} (mark : isQuoteMark b = true) :
    Bytes.isLetter b = false ∧ Bytes.small b = b := by
  have plain : Bytes.isLetter b = false := by
    unfold isQuoteMark at mark
    rw [Bool.or_eq_true, beq_iff_eq, beq_iff_eq] at mark
    obtain rfl | rfl := mark <;> decide
  exact ⟨plain, Bytes.small_of_not_letter plain⟩

theorem quoteAfter_small (quote : Option UInt8) (b : UInt8) :
    quoteAfter quote (Bytes.small b) = quoteAfter quote b := by
  unfold quoteAfter
  rw [isQuoteMark_small]
  cases mark : isQuoteMark b with
  | false => rfl
  | true => rw [(small_of_isQuoteMark mark).2]

theorem note_small (scan : Scan) (b : UInt8) :
    scan.small.note (Bytes.small b) = (scan.note b).small := by
  have opening : (Bytes.small b == '('.toUInt8) = (b == '('.toUInt8) := small_beq (by decide) b
  have closing : (Bytes.small b == ')'.toUInt8) = (b == ')'.toUInt8) := small_beq (by decide) b
  unfold note small
  dsimp only
  rw [quoteAfter_small, opening, closing]

theorem take_small (scan : Scan) (i : Nat) (b : UInt8) :
    scan.small.take i (Bytes.small b) = (scan.take i b).small := by
  unfold take small
  cases scan.piece <;> rfl

theorem finished_small (scan : Scan) : scan.small.finished = scan.finished.map Lexeme.small := by
  unfold finished small
  cases scan.piece with
  | none => rfl
  | some piece => simp [Lexeme.small]

theorem close_small (scan : Scan) (dot : Bool) : scan.small.close dot = (scan.close dot).small := by
  unfold close small
  cases scan.piece <;> simp

theorem splitsOnDot_small (scan : Scan) : scan.small.splitsOnDot = scan.splitsOnDot := by
  unfold splitsOnDot small
  cases scan.piece <;> rfl

theorem isNone_small (scan : Scan) : scan.small.piece.isNone = scan.piece.isNone :=
  Option.isNone_map

end Scan

theorem scanFrom_small (scan : Scan) (i : Nat) (text : Bytes) :
    scanFrom scan.small i (text.map Bytes.small) = (scanFrom scan i text).map small := by
  induction text generalizing scan i with
  | nil => exact scan.finished_small
  | cons b rest ih =>
    rw [List.map_cons, scanFrom, scanFrom]
    dsimp only
    have sheltered (scan : Scan) : scan.small.isSheltered = scan.isSheltered := rfl
    rw [Scan.note_small, sheltered, Scan.isNone_small, Scan.isSeparator_small,
      Scan.splitsOnDot_small, small_beq (by decide), small_beq (by decide), small_beq (by decide),
      small_beq (by decide)]
    -- The walk asks only for marks, so the two lines take one branch.
    generalize scan.note b = scan
    split
    · rw [Scan.take_small, ih]
    split
    · rw [Scan.finished_small, List.map_append]
      rfl
    split
    · have after : ({ scan.small.close false with operationDone := true } : Scan) =
          Scan.small { scan.close false with operationDone := true } := by
        rw [Scan.close_small]
        rfl
      rw [Scan.finished_small, after, ih, List.map_append]
      rfl
    split
    · rw [Scan.finished_small, Scan.close_small, ih, List.map_append]
    split
    · rw [Scan.finished_small, Scan.close_small, ih, List.map_append]
    · rw [Scan.take_small, ih]

theorem ofLine_small (line : Bytes) : ofLine (line.map Bytes.small) = (ofLine line).map small :=
  scanFrom_small .initial 0 line

end Lexeme

/-! ### Tokens -/

def TokenKind.small : TokenKind → TokenKind
  | .quotation contents => .quotation (contents.map Bytes.small)
  | kind => kind

namespace Token

def small (token : Token) : Token := ⟨token.lexeme.small, token.kind.small⟩

theorem contents_small {mark : UInt8} (plain : Bytes.isLetter mark = false) (text : Bytes) :
    contents mark (text.map Bytes.small) = (contents mark text).map Bytes.small := by
  have closed : ((text.map Bytes.small).getLast? == some mark) = (text.getLast? == some mark) := by
    rw [List.getLast?_map]
    cases text.getLast? with
    | none => rfl
    | some b => exact small_beq plain b
  have pairs (inner : Bytes) : Bytes.replaceAll (inner.map Bytes.small) [mark, mark] [mark] =
      (inner.replaceAll [mark, mark] [mark]).map Bytes.small :=
    Bytes.replaceAll_small (by simp [plain]) (by simp [Bytes.small_of_not_letter plain]) inner
  unfold contents
  dsimp only
  rw [closed]
  split
  · rw [← List.map_dropLast, pairs]
  · exact pairs text

theorem plainKind_small (text : Bytes) (mode : Option Mode) :
    plainKind (text.map Bytes.small) mode = (plainKind text mode).small := by
  cases text with
  | nil => rfl
  | cons b rest =>
    have backslash : (Bytes.small b == '\\'.toUInt8) = (b == '\\'.toUInt8) :=
      small_beq (by decide) b
    have counter : (rest.map Bytes.small == ['@'.toUInt8]) = (rest == ['@'.toUInt8]) :=
      Bytes.map_small_beq (List.forall_mem_singleton.mpr (by decide)) rest
    have digits : (rest.map Bytes.small).all Bytes.isDigit = rest.all Bytes.isDigit := by
      rw [List.all_map]
      exact congrArg _ (funext Bytes.isDigit_small)
    rw [List.map_cons, plainKind, plainKind, Lexeme.Scan.isQuoteMark_small, backslash, counter,
      List.isEmpty_map, digits]
    split
    · rename_i mark
      obtain ⟨plain, kept⟩ := Lexeme.Scan.small_of_isQuoteMark mark
      rw [kept, contents_small plain]
      rfl
    split
    · rfl
    split
    · rename_i placeholder
      have decimal := List.all_eq_true.mp (Bool.and_eq_true_iff.mp placeholder).2
      have kept : rest.map Bytes.small = rest :=
        (List.map_congr_left fun b member => Bytes.small_of_isDigit (decimal b member)).trans
          (List.map_id rest)
      rw [kept]
      rfl
    · rfl

theorem operationKind_small (text : Bytes) :
    operationKind (text.map Bytes.small) = (operationKind text).small := by
  unfold operationKind Mnemonic.ofText? Directive.ofText?
  rw [Bytes.upper_small]
  split
  · rfl
  split
  · rfl
  · exact plainKind_small text none

theorem qualifier?_small (isMnemonic : Bool) (text : Bytes) :
    qualifier? isMnemonic (text.map Bytes.small) = qualifier? isMnemonic text := by
  unfold qualifier? Size.ofText?
  rw [List.length_map, Bytes.upper_small]

theorem argumentKind_small (text : Bytes) :
    argumentKind (text.map Bytes.small) = (argumentKind text).small := by
  rw [argumentKind, Mode.ofOperand_small, plainKind_small]
  rfl

theorem isComment_small (text : Bytes) : isComment (text.map Bytes.small) = isComment text := by
  have first {mark : UInt8} (plain : Bytes.isLetter mark = false) :
      ((text.map Bytes.small).head? == some mark) = (text.head? == some mark) := by
    cases text with
    | nil => rfl
    | cons b rest => exact small_beq plain b
  rw [isComment, isComment, first (by decide), first (by decide)]

theorem classify_small (stage : Stage) (l : Lexeme) :
    classify stage l.small = ((classify stage l).1.small, (classify stage l).2) := by
  obtain ⟨start, text, afterDot⟩ := l
  unfold classify Lexeme.small
  dsimp only
  rw [isComment_small, operationKind_small, argumentKind_small]
  split
  · rfl
  split
  · rfl
  cases stage with
  | beforeOperation =>
    dsimp only
    cases operationKind text <;> rfl
  | atOperation isMnemonic =>
    dsimp only
    rw [qualifier?_small]
    cases if afterDot = true then qualifier? isMnemonic text else none <;> rfl
  | afterOperation => rfl

theorem ofLexemes_small (stage : Stage) (pieces : List Lexeme) :
    ofLexemes stage (pieces.map Lexeme.small) = (ofLexemes stage pieces).map small := by
  induction pieces generalizing stage with
  | nil => rfl
  | cons l pieces ih =>
    rw [List.map_cons, ofLexemes, ofLexemes, classify_small]
    dsimp only
    rw [ih, List.map_cons]
    rfl

theorem ofLine_small (line : Bytes) : ofLine (line.map Bytes.small) = (ofLine line).map small := by
  rw [ofLine, Lexeme.ofLine_small, ofLexemes_small]
  rfl

theorem isWord_small (token : Token) : token.small.isWord = token.isWord := by
  obtain ⟨l, kind⟩ := token
  cases kind <;> rfl

theorem size?_small (token : Token) : token.small.size? = token.size? := by
  obtain ⟨l, kind⟩ := token
  cases kind <;> rfl

theorem label?_small (token : Token) : token.small.label?.isSome = token.label?.isSome := by
  obtain ⟨l, kind⟩ := token
  cases kind <;> rfl

theorem operation_small (token : Token) : token.small.operation = token.operation := by
  obtain ⟨l, kind⟩ := token
  unfold operation
  have name : (small ⟨l, kind⟩).text.upper = (text ⟨l, kind⟩).upper := Bytes.upper_small l.text
  rw [name]
  cases kind <;> rfl

end Token

/-! ### Statements -/

/-- The part of an operand that does not depend on the case of its letters. -/
inductive OperandForm where
  | address (mode : Mode)
  | quotation (length : Nat)
  | placeholder (index : Nat)
  | counter
  deriving DecidableEq, Repr

def Operand.form (operand : Operand) : OperandForm :=
  match operand.kind with
  | .address mode _ => .address mode
  | .quotation contents => .quotation contents.length
  | .placeholder index => .placeholder index
  | .counter => .counter

def OperandForm.mode? : OperandForm → Option Mode
  | .address mode => some mode
  | _ => none

theorem Operand.mode?_eq (operand : Operand) : operand.mode? = operand.form.mode? := by
  obtain ⟨text, start, kind⟩ := operand
  cases kind <;> rfl

theorem Token.form_small (token : Token) : token.small.operand.form = token.operand.form := by
  obtain ⟨l, kind⟩ := token
  cases kind with
  | quotation contents =>
    exact congrArg OperandForm.quotation (List.length_map _)
  | operand mode => cases mode <;> rfl
  | _ => rfl

namespace Statement

theorem words_small (line : Bytes) :
    (Token.ofLine (line.map Bytes.small)).filter Token.isWord =
      ((Token.ofLine line).filter Token.isWord).map Token.small := by
  have same : Token.isWord ∘ Token.small = Token.isWord := funext Token.isWord_small
  rw [Token.ofLine_small, List.filter_map, same]

theorem opcode_small (line : Bytes) :
    (ofLine (line.map Bytes.small)).opcode = (ofLine line).opcode := by
  have size : (Token.ofLine (line.map Bytes.small)).findSome? Token.size? =
      (Token.ofLine line).findSome? Token.size? := by
    rw [Token.ofLine_small, List.findSome?_map]
    exact congrArg (List.findSome? · _) (funext Token.size?_small)
  unfold ofLine ofTokens
  dsimp only
  rw [words_small, size, List.head?_map, Option.map_map]
  congr 1
  funext token
  exact congrArg (Opcode.mk · token.start _) token.operation_small

theorem operands_small (line : Bytes) :
    (ofLine (line.map Bytes.small)).operands =
      ((Token.ofLine line).filter Token.isWord).tail.map fun token => token.small.operand := by
  unfold ofLine ofTokens
  dsimp only
  rw [words_small, ← List.map_tail, List.map_map]
  rfl

theorem forms_small (line : Bytes) :
    (ofLine (line.map Bytes.small)).operands.map Operand.form =
      (ofLine line).operands.map Operand.form := by
  rw [operands_small, List.map_map]
  unfold ofLine ofTokens
  dsimp only
  rw [List.map_map]
  exact congrArg (List.map · _) (funext Token.form_small)

theorem registerCount?_small (line : Bytes) :
    registerCount? (ofLine (line.map Bytes.small)).operands =
      registerCount? (ofLine line).operands := by
  rw [operands_small]
  unfold ofLine ofTokens registerCount?
  dsimp only
  rw [List.findSome?_map, List.findSome?_map]
  congr 1
  funext token
  obtain ⟨l, kind⟩ := token
  -- Only a register list counts by its text.
  cases kind with
  | operand mode =>
    cases mode with
    | none => rfl
    | some mode =>
      cases mode with
      | registers =>
        exact congrArg (fun count => some (Int64.ofNat count)) (Register.countList_small l.text)
      | _ => rfl
  | _ => rfl

theorem kind_small (line : Bytes) : (ofLine (line.map Bytes.small)).kind = (ofLine line).kind := by
  have label : (ofLine (line.map Bytes.small)).label.isSome = (ofLine line).label.isSome := by
    unfold ofLine ofTokens
    dsimp only
    rw [Token.ofLine_small, List.isSome_findSome?, List.isSome_findSome?, List.any_map]
    exact congrArg (List.any _ ·) (funext Token.label?_small)
  unfold kind
  rw [opcode_small, label]

theorem modes_small (line : Bytes) :
    (ofLine (line.map Bytes.small)).operands.map Operand.mode? =
      (ofLine line).operands.map Operand.mode? := by
  have read (operands : List Operand) :
      operands.map Operand.mode? = (operands.map Operand.form).map OperandForm.mode? := by
    rw [List.map_map]
    exact congrArg (List.map · _) (funext Operand.mode?_eq)
  rw [read, forms_small, ← read]

theorem key?_small (line : Bytes) : (ofLine (line.map Bytes.small)).key? = (ofLine line).key? := by
  unfold key?
  rw [opcode_small]
  split
  · rw [keyOf_of_modes (modes_small line)]
  · rfl

theorem length_small {line : Bytes} (instruction : (ofLine line).kind = .instruction)
    (symbols symbols' : Bytes → Option Int64) :
    (ofLine (line.map Bytes.small)).length symbols = (ofLine line).length symbols' := by
  unfold length
  rw [opcode_small]
  split
  · rw [instructionLength_of_modes (modes_small line)]
  · rename_i spelled
    simp [kind, spelled] at instruction
  · rfl

/-- Lines that differ only in the case of ASCII letters are statements of one kind, with one operation
and operands of one form. An instruction keeps its key, its length, whatever the symbols, and the
number of registers that it moves. -/
theorem ofLine_recased {line line' : Bytes}
    (recased : line.map Bytes.small = line'.map Bytes.small) :
    (ofLine line).kind = (ofLine line').kind ∧ (ofLine line).opcode = (ofLine line').opcode ∧
      (ofLine line).operands.map Operand.form = (ofLine line').operands.map Operand.form ∧
      ((ofLine line).kind = .instruction →
        (ofLine line).key? = (ofLine line').key? ∧
        (∀ symbols symbols', (ofLine line).length symbols = (ofLine line').length symbols') ∧
        registerCount? (ofLine line).operands = registerCount? (ofLine line').operands) := by
  have kind : (ofLine line).kind = (ofLine line').kind := by
    rw [← kind_small line, recased, kind_small]
  refine ⟨kind, ?_, ?_, fun instruction => ⟨?_, fun symbols symbols' => ?_, ?_⟩⟩
  · rw [← opcode_small line, recased, opcode_small]
  · rw [← forms_small line, recased, forms_small]
  · rw [← key?_small line, recased, key?_small]
  · rw [← length_small instruction symbols symbols, recased,
      length_small (kind ▸ instruction) symbols symbols']
  · rw [← registerCount?_small line, recased, registerCount?_small]

theorem ofLine_recased_movem :
    (ofLine (Bytes.ofString "Save: MoveM.L D0-D3/a1,-(SP) ; push")).key? =
        (ofLine (Bytes.ofString "SAVE: movem.l d0-d3/A1,-(sp) ; PUSH")).key? ∧
      registerCount? (ofLine (Bytes.ofString "Save: MoveM.L D0-D3/a1,-(SP) ; push")).operands =
        some 5 := by
  have recased : (Bytes.ofString "Save: MoveM.L D0-D3/a1,-(SP) ; push").map Bytes.small =
      (Bytes.ofString "SAVE: movem.l d0-d3/A1,-(sp) ; PUSH").map Bytes.small := by decide +kernel
  obtain ⟨-, -, -, measures⟩ := ofLine_recased recased
  obtain ⟨key, -, count⟩ := measures (by decide +kernel)
  exact ⟨key, count.trans (by decide +kernel)⟩

end Statement

end Asm68k
