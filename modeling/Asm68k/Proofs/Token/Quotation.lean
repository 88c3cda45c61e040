import Asm68k.Proofs.Rune
import Asm68k.Proofs.Token.Layout

/-!
Quotations. Any bytes can be quoted: the mark is written twice where it occurs among them, and the
walk over the line, which knows nothing of pairs, still takes the quotation as one piece
(`takes_text`). Its contents are the bytes again (`argumentKind_text`).
-/

namespace Asm68k

/-- Bytes to be quoted, and the mark to do it with. -/
structure Quotation where
  mark : UInt8
  contents : Bytes
  isMark : Lexeme.Scan.isQuoteMark mark = true := by decide

/-- What may follow on the last argument of a line: blanks, and a comment unless it is empty. -/
structure Remark where
  blanks : Bytes
  comment : Bytes
  blank : ∀ b ∈ blanks, Bytes.IsBlank b
  begins : ∀ b ∈ comment.head?, b = ';'.toUInt8

def Remark.tokens (remark : Remark) : List Token :=
  if remark.comment = [] then [] else [⟨⟨0, remark.comment, false⟩, .comment⟩]

namespace Quotation

open Token Lexeme

def inner (q : Quotation) : Bytes := q.contents.flatMap fun b => if b = q.mark then [b, b] else [b]

/-- The quotation as it is written. -/
def text (q : Quotation) : Bytes := q.mark :: (q.inner ++ [q.mark])

/-- The quotation as an argument, at no position in particular. -/
def token (q : Quotation) : Token := ⟨⟨0, q.text, false⟩, .quotation q.contents⟩

/-! ### Contents -/

theorem replaceAll_inner (q : Quotation) :
    q.inner.replaceAll [q.mark, q.mark] [q.mark] = q.contents := by
  unfold inner Bytes.replaceAll
  induction q.contents with
  | nil => rfl
  | cons b rest ih =>
    by_cases same : b = q.mark
    · subst same
      simp [Bytes.replaceAll.go, ih]
    · have other : ¬ q.mark = b := fun h => same h.symm
      simp [Bytes.replaceAll.go, same, other, ih]

theorem argumentKind_text (q : Quotation) : argumentKind q.text = .quotation q.contents := by
  have stripped : Token.contents q.mark (q.inner ++ [q.mark]) = q.contents := by
    simp [Token.contents, replaceAll_inner]
  simp [argumentKind, plainKind, text, q.isMark, stripped]

/-! ### One piece -/

theorem mark_cases (q : Quotation) :
    Scan.isSeparator q.mark = false ∧ (q.mark == ';'.toUInt8) = false ∧
      (q.mark == '*'.toUInt8) = false ∧ (q.mark == '='.toUInt8) = false ∧
      (q.mark == '.'.toUInt8) = false ∧ (q.mark == '('.toUInt8) = false ∧
      (q.mark == ')'.toUInt8) = false := by
  have mark : q.mark = '"'.toUInt8 ∨ q.mark = '\''.toUInt8 := by
    simpa [Scan.isQuoteMark] using q.isMark
  rcases mark with mark | mark <;> rw [mark] <;> decide

theorem breaks_mark (q : Quotation) (scan : Scan) : scan.breaks q.mark = false := by
  obtain ⟨separator, others⟩ := q.mark_cases
  simp [Scan.breaks, separator, others]

theorem depth_note_mark (q : Quotation) (scan : Scan) : (scan.note q.mark).depth = scan.depth := by
  obtain ⟨-, others⟩ := q.mark_cases
  simp [Scan.note, others]

theorem quote_note_mark (q : Quotation) {scan : Scan} :
    (scan.quote = none → (scan.note q.mark).quote = some q.mark) ∧
      (scan.quote = some q.mark → (scan.note q.mark).quote = none) := by
  simp only [Scan.note, Scan.quoteAfter, q.isMark, if_true]
  constructor
  · intro closed
    rw [closed]
  · intro opened
    simp [opened]

/-- Inside the quotation all other bytes are sheltered. -/
theorem note_other (q : Quotation) {scan : Scan} {b : UInt8} (opened : scan.quote = some q.mark)
    (other : b ≠ q.mark) : scan.note b = scan := by
  have quote : Scan.quoteAfter (some q.mark) b = some q.mark := by
    unfold Scan.quoteAfter
    simp [Ne.symm other]
  obtain ⟨quote', depth, piece, afterDot, operationDone⟩ := scan
  obtain rfl : quote' = some q.mark := opened
  simp [Scan.note, quote]

theorem takes_inner (q : Quotation) {scan : Scan} {i : Nat} (opened : scan.quote = some q.mark) :
    scan.Takes i q.inner ∧ (scan.takeAll i q.inner).quote = some q.mark ∧
      (scan.takeAll i q.inner).depth = scan.depth := by
  unfold inner
  induction q.contents generalizing scan i with
  | nil => exact ⟨trivial, opened, rfl⟩
  | cons b rest ih =>
    rw [List.flatMap_cons]
    by_cases same : b = q.mark
    · -- The first mark of the pair closes the quotation, and the second opens it again.
      subst same
      have between : ((scan.note q.mark).take i q.mark).quote = none := by
        rw [Scan.take_quote]
        exact q.quote_note_mark.2 opened
      have after := q.quote_note_mark.1 between
      rw [← Scan.take_quote _ (i + 1) q.mark] at after
      obtain ⟨taken, quote, depth⟩ := ih (i := i + 1 + 1) after
      rw [Scan.take_depth, depth_note_mark, Scan.take_depth, depth_note_mark] at depth
      rw [if_pos rfl]
      exact ⟨⟨q.breaks_mark _, q.breaks_mark _, taken⟩, quote, depth⟩
    · have sheltered : (scan.note b).breaks b = false := by
        rw [q.note_other opened same]
        simp [Scan.breaks, Scan.isSheltered, opened]
      have after : ((scan.note b).take i b).quote = some q.mark := by
        rw [Scan.take_quote, q.note_other opened same, opened]
      obtain ⟨taken, quote, depth⟩ := ih (i := i + 1) after
      have unchanged : ((scan.note b).take i b).depth = scan.depth := by
        rw [Scan.take_depth, q.note_other opened same]
      rw [if_neg same]
      exact ⟨⟨sheltered, taken⟩, quote, depth.trans unchanged⟩

theorem takes_text (q : Quotation) {scan : Scan} (idle : scan.AtRest) (i : Nat) :
    scan.Takes i q.text ∧ (scan.takeAll i q.text).isSheltered = false := by
  have closed : scan.quote = none ∧ ¬ 0 < scan.depth := by
    simpa [Scan.isSheltered] using idle.sheltered
  have opened := q.quote_note_mark.1 closed.1
  rw [← Scan.take_quote _ i q.mark] at opened
  obtain ⟨taken, quote, depth⟩ := q.takes_inner (i := i + 1) opened
  refine ⟨⟨q.breaks_mark _, taken.snoc (q.breaks_mark _)⟩, ?_⟩
  rw [text, Scan.takeAll, Scan.takeAll_snoc, Scan.isSheltered, Scan.take_quote, Scan.take_depth,
    q.quote_note_mark.2 quote, depth_note_mark, depth, Scan.take_depth, depth_note_mark]
  simp [closed.2]

end Quotation

/-! ### Arguments in quotation marks -/

namespace Token

open Lexeme

/-- A mark that closes a quotation before its end is part of the contents. -/
theorem length_contents {mark : UInt8} {bytes after : Bytes} (inner : mark ∉ bytes)
    (more : after ≠ []) : bytes.length < (contents mark (bytes ++ mark :: after)).length := by
  unfold contents
  dsimp only
  split
  · rw [List.dropLast_append_of_ne_nil (List.cons_ne_nil _ _), List.dropLast_cons_of_ne_nil more]
    exact Bytes.length_replaceAll_pair inner _
  · exact Bytes.length_replaceAll_pair inner _

theorem isSeparator_of_isBlank {b : UInt8} (blank : Bytes.IsBlank b) :
    Scan.isSeparator b = true := by
  rcases blank with rfl | rfl <;> decide

theorem map_meaning_remark (remark : Remark) (stage : Stage) {scan : Scan} (idle : scan.AtRest)
    (i : Nat) :
    (ofLexemes stage (scanFrom scan i (remark.blanks ++ remark.comment))).map meaning =
      remark.tokens.map meaning := by
  obtain ⟨blanks, comment, blank, begins⟩ := remark
  dsimp only [Remark.tokens] at begins ⊢
  induction blanks generalizing scan i with
  | nil =>
    cases comment with
    | nil =>
      rw [List.nil_append, scanFrom, idle.finished]
      rfl
    | cons b comment =>
      have semicolon := begins b rfl
      have isComment : isComment (b :: comment) = true := by simp [isComment, semicolon]
      rw [List.nil_append, scanFrom_comment idle.sheltered (.inl semicolon), idle.finished,
        List.nil_append, ofLexemes_cons, classify_comment isComment]
      rfl
  | cons b blanks ih =>
    obtain ⟨first, others⟩ := List.forall_mem_cons.mp blank
    rw [List.cons_append, scanFrom_separator idle.sheltered (isSeparator_of_isBlank first),
      idle.finished, List.nil_append]
    exact ih (.close idle.sheltered false) _ others

theorem ends_remark (remark : Remark) : ∀ b ∈ (remark.blanks ++ remark.comment).head?,
    b = ';'.toUInt8 ∨ b = '='.toUInt8 ∨ Scan.isSeparator b = true := by
  obtain ⟨blanks, comment, blank, begins⟩ := remark
  cases blanks with
  | nil => exact fun b first => .inl (begins b first)
  | cons b blanks =>
    rintro _ ⟨⟩
    exact .inr (.inr (isSeparator_of_isBlank (blank b List.mem_cons_self)))

theorem map_meaning_quotation (q : Quotation) {scan : Scan} (idle : scan.AtRest) {i : Nat}
    (past : 0 < i) {rest : Bytes}
    (ends : ∀ b ∈ rest.head?, b = ';'.toUInt8 ∨ b = '='.toUInt8 ∨ Scan.isSeparator b = true) :
    ∃ next : Scan, next.AtRest ∧
      (ofLexemes .afterOperation (scanFrom scan i (q.text ++ rest))).map meaning =
        q.token.meaning ::
          (ofLexemes .afterOperation (scanFrom next (i + q.text.length) rest)).map meaning := by
  obtain ⟨taken, unsheltered⟩ := q.takes_text idle i
  have filled : q.text ≠ [] := List.cons_ne_nil _ _
  have word := isComment_of_takes idle taken
  refine ⟨_, .close unsheltered false, ?_⟩
  rw [scanFrom_word idle filled taken unsheltered ends, ofLexemes_cons, classify_later word past,
    q.argumentKind_text]
  rfl

theorem map_meaning_quotations (quotations : List Quotation) (remark : Remark) {scan : Scan}
    (idle : scan.AtRest) {i : Nat} (past : 0 < i) :
    (ofLexemes .afterOperation (scanFrom scan i
        (Bytes.join [','.toUInt8] (quotations.map Quotation.text) ++
          (remark.blanks ++ remark.comment)))).map meaning =
      (quotations.map Quotation.token ++ remark.tokens).map meaning := by
  induction quotations generalizing scan i with
  | nil => exact map_meaning_remark remark .afterOperation idle i
  | cons q others ih =>
    rw [List.map_cons, List.map_cons, List.cons_append, List.map_cons]
    cases others with
    | nil =>
      obtain ⟨next, rested, here⟩ := map_meaning_quotation q idle past (ends_remark remark)
      rw [map_meaning_remark remark _ rested] at here
      exact here
    | cons q' others =>
      have comma : Scan.isSeparator ','.toUInt8 = true := by decide
      have ends (more : Bytes) : ∀ b ∈ (','.toUInt8 :: more).head?,
          b = ';'.toUInt8 ∨ b = '='.toUInt8 ∨ Scan.isSeparator b = true := by
        rintro _ ⟨⟩
        exact .inr (.inr comma)
      obtain ⟨next, rested, here⟩ := map_meaning_quotation q idle past (ends _)
      rw [scanFrom_separator rested.sheltered comma, rested.finished, List.nil_append,
        ih (.close rested.sheltered false) (Nat.succ_pos _)] at here
      rw [List.map_cons, Bytes.join, List.append_assoc, List.append_assoc]
      · exact here
      · exact List.cons_ne_nil _ _

end Token

end Asm68k
