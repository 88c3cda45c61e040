import Asm68k.Proofs.Expression.Rendering
import Asm68k.Proofs.Resolver.Replacement

/-!
Repeated blocks. A block with a number of repetitions comes to the same as its body written out
that often.
-/

namespace Asm68k.Resolver

open Line Expression

/-! ### The lines around a block -/

/-- The line that begins a block; `count` is the number of repetitions. -/
def reptLine (count : Bytes) : Bytes := Bytes.ofString " rept " ++ count

def endrLine : Bytes := Bytes.ofString " endr"

section Lexing

open Lexeme Lexeme.Scan

theorem isDigit_cases {b : UInt8} (digit : Bytes.isDigit b = true) :
    quoteAfter none b = none ∧ isQuoteMark b = false ∧ isSeparator b = false ∧
      ∀ c ∈ ['('.toUInt8, ')'.toUInt8, ';'.toUInt8, '*'.toUInt8, '='.toUInt8, '.'.toUInt8,
        '\\'.toUInt8], (b == c) = false := by
  have checked := Bytes.forall_byte (p := fun b => !Bytes.isDigit b ||
    decide (quoteAfter none b = none ∧ isQuoteMark b = false ∧ isSeparator b = false ∧
      ∀ c ∈ ['('.toUInt8, ')'.toUInt8, ';'.toUInt8, '*'.toUInt8, '='.toUInt8, '.'.toUInt8,
        '\\'.toUInt8], (b == c) = false)) (by decide +kernel) b
  simpa only [digit, Bool.not_true, Bool.false_or, decide_eq_true_eq] using checked

theorem scanFrom_digits {digits : Bytes} (decimal : ∀ b ∈ digits, Bytes.isDigit b = true)
    (start i : Nat) (bytes : Bytes) :
    scanFrom ⟨none, 0, some (start, bytes), false, true⟩ i digits =
      [⟨start, bytes.reverse ++ digits, false⟩] := by
  induction digits generalizing i bytes with
  | nil => simp [scanFrom, finished]
  | cons b digits ih =>
    have ⟨digit, rest⟩ := List.forall_mem_cons.mp decimal
    obtain ⟨quote, mark, separator, others⟩ := isDigit_cases digit
    simp only [List.forall_mem_cons] at others
    rw [scanFrom]
    simp [note, quote, isSheltered, others, separator, splitsOnDot, take, ih rest]

theorem lexemes_reptLine {count : Bytes} (nonempty : count ≠ [])
    (decimal : ∀ b ∈ count, Bytes.isDigit b = true) :
    Lexeme.ofLine (reptLine count) =
      [⟨1, Bytes.ofString "rept", false⟩, ⟨6, count, false⟩] := by
  obtain ⟨b, digits, rfl⟩ := List.exists_cons_of_ne_nil nonempty
  have ⟨digit, rest⟩ := List.forall_mem_cons.mp decimal
  obtain ⟨quote, mark, separator, others⟩ := isDigit_cases digit
  simp only [List.forall_mem_cons] at others
  have spelled : Bytes.ofString " rept " =
      [' ', 'r', 'e', 'p', 't', ' '].map Char.toUInt8 := by decide +kernel
  have operation : Lexeme.ofLine (reptLine (b :: digits)) =
      ⟨1, Bytes.ofString "rept", false⟩ ::
        scanFrom ⟨none, 0, none, false, true⟩ 6 (b :: digits) := by
    rw [reptLine, spelled]
    rfl
  rw [operation, scanFrom]
  simp [note, quote, isSheltered, others, separator, splitsOnDot, take, scanFrom_digits rest]

theorem operand_reptLine {count : Bytes} (nonempty : count ≠ [])
    (decimal : ∀ b ∈ count, Bytes.isDigit b = true) :
    (Statement.ofLine (reptLine count)).directive? = some .beginRepeat ∧
      ∃ operand, (Statement.ofLine (reptLine count)).operands = [operand] ∧
        operand.text = count := by
  obtain ⟨b, digits, rfl⟩ := List.exists_cons_of_ne_nil nonempty
  obtain ⟨-, mark, -, others⟩ := isDigit_cases (decimal b List.mem_cons_self)
  simp only [List.forall_mem_cons] at others
  have operation : Token.classify .beforeOperation ⟨1, Bytes.ofString "rept", false⟩ =
      (.directive .beginRepeat, .atOperation false) := by decide +kernel
  have argument : Token.classify (.atOperation false) ⟨6, b :: digits, false⟩ =
      (.operand (some (Mode.ofOperand (b :: digits))), .afterOperation) := by
    simp [Token.classify, Token.isComment, others, Token.argumentKind, Token.plainKind, mark]
  have tokens : Token.ofLine (reptLine (b :: digits)) =
      [⟨⟨1, Bytes.ofString "rept", false⟩, .directive .beginRepeat⟩,
        ⟨⟨6, b :: digits, false⟩, .operand (some (Mode.ofOperand (b :: digits)))⟩] := by
    rw [Token.ofLine, lexemes_reptLine nonempty decimal]
    simp only [Token.ofLexemes, operation, argument]
  rw [Statement.ofLine, tokens]
  exact ⟨rfl, _, rfl, rfl⟩

end Lexing

theorem repeatCount_reptLine {count : Bytes} {n : Nat} (numeral : Numeral 10 count n)
    (fits : n < 2 ^ 63) (symbols : Symbols) :
    (repeatCount symbols (.ofLine (reptLine count))).toInt.toNat = n := by
  have word : (UInt64.ofNat n).toNat = n := by
    rw [UInt64.toNat_ofNat']
    exact Nat.mod_eq_of_lt (by omega)
  have spelled : Literal (UInt64.ofNat n).toInt64 count :=
    @Literal.number [] 10 count (UInt64.ofNat n) (by decide) (word.symm ▸ numeral)
  obtain ⟨-, operand, operands, text⟩ := operand_reptLine numeral.nonempty numeral.decimal
  rw [repeatCount, operands]
  dsimp only
  rw [text, value?_literal spelled, Option.getD_some, ← Int64.toInt_toBitVec]
  have nonnegative : (UInt64.ofNat n).toInt64.toBitVec.toInt = n := by
    rw [UInt64.toBitVec_toInt64, BitVec.toInt_eq_toNat_of_lt, UInt64.toNat_toBitVec, word]
    rw [UInt64.toNat_toBitVec, word]
    omega
  rw [nonnegative, Int.toNat_natCast]

/-! ### Collecting and repeating -/

section

variable {settings settings' : Settings} {expand : Expander} {address : Int64}
  {start : Statement} {lines lines' : List Line} {last : Frame} {s t s' t' : State}

theorem stepped_collected {statement : Statement} {pending : Pending} {line : Line}
    (h : Stepped settings expand ⟨address, pending⟩ statement s line s')
    (collecting : pending ≠ .nothing) (unfinished : pending.after statement ≠ .nothing) :
    line = .blank statement.text ∧ s' = s := by
  cases h with
  | collected => exact ⟨rfl, rfl⟩
  | macroEnded here ends =>
    cases here
    exact absurd (by simp [Pending.after, ends]) unfinished
  | repeatEnded here ends =>
    cases here
    exact absurd (by simp [Pending.after, ends]) unfinished
  | blank here | plain here | assigned here | macroBegun here | switched here | ignored here
  | invoked here => exact absurd here collecting

theorem blank_inert (text : Bytes) (address : Int64) :
    address + (Line.blank text).bytes = address ∧ counted (Line.blank text).lineLeaves = [] :=
  ⟨Int64.add_zero _, rfl⟩

theorem openBlocks_after {statement : Statement} {body : List Statement} {depth final : Nat}
    (balanced : openBlocks depth (statement :: body) = some final) (start : Statement)
    (done : Array Statement) :
    ∃ depth', openBlocks depth' body = some final ∧
      (Pending.repeatBody start done depth).after statement =
        .repeatBody start (done.push statement) depth' := by
  rcases openBlocks_cons balanced with ⟨begins, remaining⟩ | ⟨ends, outer, rfl, remaining⟩ |
    ⟨begins, ends, remaining⟩
  · exact ⟨depth + 1, remaining, by simp [Pending.after, begins]⟩
  · exact ⟨outer, remaining, by simp [Pending.after, ends]⟩
  · exact ⟨depth, remaining, Pending.after_repeatBody start done depth begins ends⟩

theorem Runs.collected {body : List Statement} {depth final : Nat} {done : Array Statement}
    (balanced : openBlocks depth body = some final)
    (h : Runs settings expand ⟨address, .repeatBody start done depth⟩ body s lines last s') :
    last = ⟨address, .repeatBody start (done ++ body.toArray) final⟩ ∧
      counted (leaves lines) = [] ∧ Alike s s' := by
  induction body generalizing depth done s lines with
  | nil =>
    cases balanced
    cases h
    exact ⟨by simp, rfl, alike_refl _⟩
  | cons statement body ih =>
    cases h with
    | @cons _ _ _ _ _ u _ line lines pending stepped rest =>
      obtain ⟨here, rfl⟩ := step_stepped stepped
      obtain ⟨depth', balanced', after⟩ := openBlocks_after balanced start done
      dsimp only at rest
      rw [after] at rest
      obtain ⟨rfl, rfl⟩ := stepped_collected here (by simp) (by simp [after])
      obtain ⟨still, uncounted⟩ := blank_inert statement.text address
      rw [still] at rest
      obtain ⟨rfl, nothing, after⟩ := ih balanced' rest
      refine ⟨by simp, ?_, after⟩
      rw [leaves, counted_append, uncounted, nothing]
      rfl

/-- The copies of a closed body are resolved like the body written out as often. -/
theorem repeatFrom_unrolled {levels levels' n : Nat} {body : List Statement} (closed : Closed body)
    {copies result : List (List Line)} (alike : Alike s t)
    (h : repeatFrom (expandAt settings levels) body n address copies s = .ok result s')
    (h' : Runs settings' (expandAt settings' levels') ⟨address, .nothing⟩
      (List.replicate n body).flatten t lines' last t') :
    result.reverse.flatten = copies.reverse.flatten ++ lines' ∧
      last = ⟨address + extent (leaves lines'), .nothing⟩ ∧ Alike s' t' := by
  induction n generalizing address copies s t lines' with
  | zero =>
    cases h
    cases h'
    exact ⟨by simp, by simp [leaves], alike⟩
  | succ n ih =>
    obtain ⟨lines, u, expanded, h⟩ := bind_ok h
    rw [List.replicate_succ, List.flatten_cons] at h'
    obtain ⟨first, middle, v, rest, one, others, rfl⟩ := h'.split
    obtain ⟨rfl, rfl, between⟩ := expandAt_inline closed alike expanded one
    rw [bytes_ofLines] at h
    obtain ⟨copied, rfl, after⟩ := ih between h others
    refine ⟨?_, ?_, after⟩
    · rw [copied, List.reverse_cons, List.flatten_append, List.flatten_singleton,
        List.append_assoc]
    · rw [leaves_append, extent_append, Int64.add_assoc]

/-- A block is interchangeable with the copies of its body. -/
theorem interchangeable_block {before body : List Statement} {finish : Statement} {n : Nat}
    (begins : start.directive? = some .beginRepeat) (ends : finish.directive? = some .endRepeat)
    (count : ∀ symbols, (repeatCount symbols start).toInt.toNat = n) (closed : Closed body) :
    Interchangeable settings s before (start :: body ++ [finish])
      (List.replicate n body).flatten := by
  intro settings' address u v u' v' first lines lines' last last' _ alike h h'
  cases h with
  | @cons _ _ _ _ _ w _ line lines pending stepped rest =>
  -- The first line and the body only collect; all the work is done by the step at the end.
  rw [step_beginRepeat begins] at stepped
  cases stepped
  obtain ⟨still, uncounted⟩ := blank_inert start.text address
  rw [still] at rest
  obtain ⟨collected, middle, w', _, within, closing, rfl⟩ := rest.split
  obtain ⟨rfl, nothing, collecting⟩ := within.collected closed.balanced
  cases closing with
  | @cons _ _ _ _ _ x _ line _ pending stepped' rest' =>
  cases rest'
  rw [step_endRepeat ends] at stepped'
  obtain ⟨_, _, resolved, stepped'⟩ := bind_ok stepped'
  cases stepped'
  obtain ⟨copies, rfl, run⟩ := resolveRepeat_ok resolved
  have whole : (#[] ++ body.toArray).toList = body := by simp
  rw [count, whole] at run
  have before : Alike w' v := collecting.symm.trans alike
  have reached :
      Alike (w'.reported (.blockRepeated (repeatCount w'.symbols start) body.length)) v :=
    ⟨before.symbols, before.macros, before.bss⟩
  obtain ⟨copied, rfl, after⟩ := repeatFrom_unrolled closed reached run h'
  rw [List.reverse_nil, List.flatten_nil, List.nil_append] at copied
  refine ⟨?_, ?_, after⟩
  · rw [leaves, leaves_append, counted_append, counted_append, uncounted, nothing, leaves,
      lineLeaves_ofExpansion, copied]
    simp [leaves]
  · rw [bytes_ofExpansion, copied]

end

/-- A source without lines reads as one empty line, which does nothing. -/
theorem interchangeable_empty {settings : Settings} {s : State} {before part : List Statement}
    (same : Interchangeable settings s before part []) :
    Interchangeable settings s before part [.ofLine []] := by
  intro settings' address u v u' v' first lines lines' last last' reached alike h h'
  cases h' with
  | @cons _ _ _ _ _ w _ line lines pending stepped rest =>
  cases rest
  cases stepped
  obtain ⟨still, uncounted⟩ := blank_inert (Statement.ofLine []).text address
  have idle : Runs settings' (expandAt settings' settings'.limits.depth) ⟨address, .nothing⟩ [] v []
      ⟨address, .nothing⟩ v := .nil _ v
  obtain ⟨counts, rfl, after⟩ := same reached alike h idle
  exact ⟨counts, by rw [still], after⟩

/-! ### Unrolling -/

theorem isInner_reptLine {count : Bytes} (decimal : ∀ b ∈ count, Bytes.isDigit b = true) :
    ∀ b ∈ reptLine count, Bytes.IsInner b := by
  have spelled : ∀ b ∈ Bytes.ofString " rept ", Bytes.IsInner b := by decide +kernel
  intro b member
  rcases List.mem_append.mp member with old | new
  · exact spelled b old
  · have digit := decimal b new
    constructor <;> · rintro rfl; exact absurd digit (by decide)

theorem statements_repeated {before body after : List Bytes} {count : Bytes}
    (inner : ∀ line ∈ before ++ body ++ after, ∀ b ∈ line, Bytes.IsInner b)
    (decimal : ∀ b ∈ count, Bytes.isDigit b = true) :
    statements (.ofLines (before ++ (reptLine count :: body ++ [endrLine]) ++ after)) =
      before.map .ofLine ++ (.ofLine (reptLine count) :: body.map .ofLine ++ [.ofLine endrLine]) ++
        after.map .ofLine := by
  have ending : ∀ b ∈ endrLine, Bytes.IsInner b := by decide +kernel
  rw [statements_ofLines _ (by simp)]
  · simp
  · intro line member
    simp only [List.mem_append, List.mem_cons, List.not_mem_nil, or_false] at member inner
    rcases member with (old | (rfl | copied) | rfl) | new
    · exact inner line (.inl (.inl old))
    · exact isInner_reptLine decimal
    · exact inner line (.inl (.inr copied))
    · exact ending
    · exact inner line (.inr new)

theorem statements_unrolled {before body after : List Bytes} {n : Nat}
    (inner : ∀ line ∈ before ++ body ++ after, ∀ b ∈ line, Bytes.IsInner b)
    (nonempty : before ++ (List.replicate n body).flatten ++ after ≠ []) :
    statements (.ofLines (before ++ (List.replicate n body).flatten ++ after)) =
      before.map .ofLine ++ (List.replicate n (body.map .ofLine)).flatten ++ after.map .ofLine := by
  rw [statements_ofLines _ nonempty]
  · simp
  · intro line member
    simp only [List.mem_append, List.mem_flatten, List.mem_replicate] at member inner
    rcases member with (old | ⟨_, ⟨-, rfl⟩, copied⟩) | new
    · exact inner line (.inl (.inl old))
    · exact inner line (.inl (.inr copied))
    · exact inner line (.inr new)

/-- A block that is repeated `n` times may be replaced by `n` copies of its lines. -/
theorem resolve_unrolled {limits : Limits} {patience : Option Nat} {before body after : List Bytes}
    {count : Bytes} {n : Nat} {source source' : Bytes} {lines lines' : List Line}
    (inner : ∀ line ∈ before ++ body ++ after, ∀ b ∈ line, Bytes.IsInner b)
    (numeral : Numeral 10 count n) (fits : n < 2 ^ 63)
    (idle : Pending.nothing.afterAll (before.map .ofLine) = .nothing)
    (closed : Closed (body.map .ofLine))
    (repeated : source = .ofLines (before ++ (reptLine count :: body ++ [endrLine]) ++ after))
    (unrolled : source' = .ofLines (before ++ (List.replicate n body).flatten ++ after))
    (h : (resolve limits patience source).result = .ok lines)
    (h' : (resolve limits patience source').result = .ok lines') :
    (resolve limits patience source).symbols = (resolve limits patience source').symbols ∧
      (Totals.ofLines lines).space = (Totals.ofLines lines').space ∧
      counted (leaves lines) = counted (leaves lines') := by
  have ⟨begins, _⟩ := operand_reptLine numeral.nonempty numeral.decimal
  have ends : (Statement.ofLine endrLine).directive? = some .endRepeat := by decide +kernel
  have same (settings : Settings) (s : State) : Interchangeable settings s (before.map .ofLine)
      (.ofLine (reptLine count) :: body.map .ofLine ++ [.ofLine endrLine])
      (List.replicate n (body.map .ofLine)).flatten :=
    interchangeable_block begins ends (repeatCount_reptLine numeral fits) closed
  have split := statements_repeated inner numeral.decimal
  rw [← repeated] at split
  -- Copies of nothing around nothing leave the empty text, which still has one line.
  by_cases empty : before ++ (List.replicate n body).flatten ++ after = []
  · have nothing := empty
    simp only [List.append_eq_nil_iff] at nothing
    obtain ⟨⟨rfl, copies⟩, rfl⟩ := nothing
    have copies' : (List.replicate n (body.map Statement.ofLine)).flatten = [] := by
      rw [← List.map_replicate, ← List.map_flatten, copies, List.map_nil]
    rw [copies'] at same
    have split' : statements source' = [] ++ [.ofLine []] ++ [] := by
      rw [unrolled, empty]
      rfl
    exact resolve_replaced h h' split split' idle fun _ _ _ _ _ _ =>
      ⟨interchangeable_empty (same _ _), interchangeable_empty (same _ _)⟩
  · have split' := statements_unrolled inner empty
    rw [← unrolled] at split'
    exact resolve_replaced h h' split split' idle fun _ _ _ _ _ _ => ⟨same _ _, same _ _⟩

/-- The block has a counter, a label, a section and a block of its own. -/
theorem resolve_unrolled_nested :
    let before := ["x set 1"].map Bytes.ofString
    let body := ["x set x*2", "l dc.b x", " rept x", " dc.w 1", " endr", " bss"].map Bytes.ofString
    let source := Bytes.ofLines
      (before ++ (reptLine ['0'.toUInt8, '2'.toUInt8] :: body ++ [endrLine]) ++ [])
    let source' := Bytes.ofLines (before ++ (List.replicate 2 body).flatten ++ [])
    ∃ lines lines', (resolve .standard none source).result = .ok lines ∧
      (resolve .standard none source').result = .ok lines' ∧
      (resolve .standard none source).symbols = (resolve .standard none source').symbols ∧
      (Totals.ofLines lines).space = (Totals.ofLines lines').space ∧
      counted (leaves lines) = counted (leaves lines') := by
  intro before body source source'
  obtain ⟨resolved, resolved', inner, idle, idle', closed, closed'⟩ :
      (resolve .standard none source).result.isOk = true ∧
      (resolve .standard none source').result.isOk = true ∧
      (∀ line ∈ before ++ body ++ [], ∀ b ∈ line, Bytes.IsInner b) ∧
      (∀ s ∈ before.map Statement.ofLine,
        s.directive? ≠ some .beginMacro ∧ s.directive? ≠ some .endMacro) ∧
      openBlocks 0 (before.map .ofLine) = some 0 ∧
      (∀ s ∈ body.map Statement.ofLine,
        s.directive? ≠ some .beginMacro ∧ s.directive? ≠ some .endMacro) ∧
      openBlocks 0 (body.map .ofLine) = some 0 := by
    decide +kernel
  have numeral : Numeral 10 ['0'.toUInt8, '2'.toUInt8] 2 :=
    ⟨[0, 2], by decide, by repeat constructor, by decide, by decide⟩
  have nothing : Closed (before.map .ofLine) := ⟨idle, idle'⟩
  obtain ⟨lines, h⟩ := exists_ok resolved
  obtain ⟨lines', h'⟩ := exists_ok resolved'
  exact ⟨lines, lines', h, h', resolve_unrolled inner numeral (by decide) nothing.afterAll_nothing
    ⟨closed, closed'⟩ rfl rfl h h'⟩

end Asm68k.Resolver
