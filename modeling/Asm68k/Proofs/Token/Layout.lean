import Asm68k.Proofs.Token.Classification

/-!
The layout of a line does not matter. The tokens of a line are written out in one way, and the line
that results has the same tokens up to their positions (`map_meaning_normal`). The two lines are walked over
side by side; `Awaits` says what the walks have in common when the next token is due.
-/

namespace Asm68k

namespace Token

open Lexeme

/-! ### Written tokens -/

/-- Where the next word of a statement stands. -/
inductive Place where
  | operation
  | firstArgument
  | laterArgument

namespace Place

/-- What is written before a word: a comma between arguments and else a blank. -/
def mark : Place → UInt8
  | .operation | .firstArgument => ' '.toUInt8
  | .laterArgument => ','.toUInt8

def next : Place → Place
  | .operation => .firstArgument
  | .firstArgument | .laterArgument => .laterArgument

theorem isSeparator_mark (place : Place) : Scan.isSeparator place.mark = true := by
  cases place <;> decide

end Place

/-- Tokens in a plain layout: a label at the beginning of the line, a size after a dot, arguments
between commas, and all else after one blank. -/
def layoutFrom (place : Place) : List Token → Bytes
  | [] => []
  | token :: tokens =>
    match token.kind with
    | .label => token.text ++ layoutFrom place tokens
    | .comment => ' '.toUInt8 :: token.text ++ layoutFrom place tokens
    | .qualifier _ => '.'.toUInt8 :: token.text ++ layoutFrom place tokens
    | _ => place.mark :: token.text ++ layoutFrom place.next tokens

/-- A line in a plain layout. -/
def normal (line : Bytes) : Bytes := layoutFrom .operation (ofLine line)

/-- A token without its position. -/
def meaning (token : Token) : Bytes × TokenKind := (token.text, token.kind)

theorem layoutFrom_label {token : Token} (h : token.kind = .label) (place : Place)
    (tokens : List Token) :
    layoutFrom place (token :: tokens) = token.text ++ layoutFrom place tokens := by
  rw [layoutFrom, h]

theorem layoutFrom_comment {token : Token} (h : token.kind = .comment) (place : Place)
    (tokens : List Token) :
    layoutFrom place (token :: tokens) =
      ' '.toUInt8 :: (token.text ++ layoutFrom place tokens) := by
  rw [layoutFrom, h]
  rfl

theorem layoutFrom_qualifier {token : Token} {size : Size} (h : token.kind = .qualifier size)
    (place : Place) (tokens : List Token) :
    layoutFrom place (token :: tokens) =
      '.'.toUInt8 :: (token.text ++ layoutFrom place tokens) := by
  rw [layoutFrom, h]
  rfl

theorem layoutFrom_word {token : Token} (h : token.isWord = true) (place : Place)
    (tokens : List Token) :
    layoutFrom place (token :: tokens) =
      place.mark :: (token.text ++ layoutFrom place.next tokens) := by
  unfold isWord at h
  rw [layoutFrom]
  split at h <;> simp_all

/-! ### Two walks side by side -/

/-- The scan `other` has come to the end of a token in the plain layout when `scan` looks for the
next one in the line itself. Both are in the same shelter, and as soon as the token is ended, dots
separate for `other` at most where they do for `scan`. -/
structure Awaits (stage : Stage) (scan : Scan) (i : Nat) (other : Scan) (j : Nat) : Prop where
  rest : scan.AtRest
  quote : other.quote = scan.quote
  depth : other.depth = scan.depth
  ready : match stage with
    -- A label has its place only where both lines begin.
    | .beforeOperation =>
      (other.close false).operationDone = scan.operationDone ∧
        (i = 0 → j = 0 ∧ other.piece = none)
    -- A size can follow on a dot only if a dot ends the operation in the plain layout too.
    | .atOperation _ =>
      0 < i ∧ (other.close false).operationDone = true ∧
        (scan.afterDot = true → other.splitsOnDot = true ∧ scan.operationDone = false)
    | .afterOperation => 0 < i ∧ (other.close false).operationDone = true

/-- The scan `next` has come to the beginning of the token in the plain layout. -/
structure Reaches (stage : Stage) (scan : Scan) (l : Lexeme) (next : Scan) (k : Nat) : Prop where
  rest : next.AtRest
  follows : scan.Follows l.start next k
  start : k = 0 ↔ l.start = 0
  done : stage = .beforeOperation → next.operationDone = scan.operationDone
  classified : classify stage ⟨k, l.text, next.afterDot⟩ = classify stage l

section

variable {stage : Stage} {scan other : Scan} {i j : Nat}

theorem Awaits.unsheltered (h : Awaits stage scan i other j) : other.isSheltered = false := by
  have rest := h.rest.sheltered
  rw [Scan.isSheltered] at rest ⊢
  rwa [h.quote, h.depth]

theorem Awaits.past (h : Awaits stage scan i other j) (later : stage ≠ .beforeOperation) :
    0 < i := by
  have ready := h.ready
  cases stage with
  | beforeOperation => exact (later rfl).elim
  | atOperation => exact ready.1
  | afterOperation => exact ready.1

/-- Ending the token before makes the walks alike, unless dots separate for one of them only. -/
theorem Awaits.follows (h : Awaits stage scan i other j) {dot : Bool} {k : Nat}
    (splits : 0 < k → (other.close dot).operationDone = false →
      0 < i ∧ scan.operationDone = false) :
    scan.Follows i (other.close dot) k := by
  have rest := Scan.AtRest.close h.unsheltered dot
  refine ⟨?_, ?_, ?_, ?_⟩
  · rw [Scan.close_quote, h.quote]
  · rw [Scan.close_depth, h.depth]
  · rw [rest.piece, h.rest.piece]
  · intro split
    simp only [Scan.wouldSplit, Scan.startAt, rest.piece, h.rest.piece, Bool.and_eq_true,
      decide_eq_true_eq, Bool.not_eq_true'] at split ⊢
    exact splits split.1 split.2

/-- In the plain layout the token before is ended and the piece is reached. -/
def Fronts (stage : Stage) (scan other : Scan) (j : Nat) (l : Lexeme) (place : Place) : Prop :=
  ∃ next k place', Reaches stage scan l next k ∧ ∀ tokens,
    scanFrom other j (layoutFrom place (⟨l, (classify stage l).1⟩ :: tokens)) =
      other.finished ++ scanFrom next k (l.text ++ layoutFrom place' tokens)

theorem Awaits.fronts_label (h : Awaits stage scan 0 other j) {text : Bytes} {dot : Bool}
    (word : isComment text = false) (place : Place) :
    Fronts stage scan other j ⟨0, text, dot⟩ place := by
  have label : classify stage ⟨0, text, dot⟩ = (.label, stage) := classify_label word
  cases stage with
  | atOperation | afterOperation => exact absurd (h.past nofun) (Nat.lt_irrefl 0)
  | beforeOperation =>
    obtain ⟨done, first⟩ := h.ready
    obtain ⟨rfl, idle⟩ := first rfl
    rw [Scan.close_idle idle] at done
    -- A label is written without anything before it, so the scan is where it was.
    have follows : scan.Follows 0 other 0 := by
      refine ⟨h.quote, h.depth, ?_, ?_⟩
      · rw [idle, h.rest.piece]
      · simp [Scan.wouldSplit, Scan.startAt, idle]
    refine ⟨other, 0, place, ⟨⟨h.unsheltered, idle⟩, follows, Iff.rfl, fun _ => done, ?_⟩, ?_⟩
    · rw [label]
      exact classify_label word
    · intro tokens
      rw [layoutFrom_label (by rw [label])]
      simp [Scan.finished, idle, Token.text]

theorem Awaits.fronts_word (h : Awaits stage scan i other j) {text : Bytes} {dot : Bool}
    (past : 0 < i)
    (isWord : (Token.mk ⟨i, text, dot⟩ (classify stage ⟨i, text, dot⟩).1).isWord = true)
    (alike : classify stage ⟨j + 1, text, false⟩ = classify stage ⟨i, text, dot⟩)
    (splits : (other.close false).operationDone = false → scan.operationDone = false)
    (done : stage = .beforeOperation → (other.close false).operationDone = scan.operationDone)
    (place : Place) : Fronts stage scan other j ⟨i, text, dot⟩ place := by
  refine ⟨other.close false, j + 1, place.next, ⟨.close h.unsheltered false, ?_, ?_, done, ?_⟩, ?_⟩
  · exact h.follows fun _ undone => ⟨past, splits undone⟩
  · simp [Nat.ne_of_gt past]
  · rw [Scan.close_false_afterDot]
    exact alike
  · intro tokens
    rw [layoutFrom_word isWord, scanFrom_separator h.unsheltered place.isSeparator_mark]
    rfl

theorem Awaits.fronts_qualifier {isMnemonic : Bool}
    (h : Awaits (.atOperation isMnemonic) scan i other j) {text : Bytes} {size : Size}
    (word : isComment text = false) (dotted : scan.afterDot = true)
    (known : qualifier? isMnemonic text = some size) (place : Place) :
    Fronts (.atOperation isMnemonic) scan other j ⟨i, text, true⟩ place := by
  obtain ⟨past, -, splits⟩ := h.ready
  obtain ⟨splits, undone⟩ := splits dotted
  have here := classify_qualifier word past known
  have ended : (other.close true).afterDot = true := by
    unfold Scan.splitsOnDot at splits
    unfold Scan.close
    split at splits
    · cases splits
    · simp [*]
  refine ⟨other.close true, j + 1, place, ⟨.close h.unsheltered true, ?_, ?_, nofun, ?_⟩, ?_⟩
  · exact h.follows fun _ _ => ⟨past, undone⟩
  · simp [Nat.ne_of_gt past]
  · rw [ended, here]
    exact classify_qualifier word (Nat.succ_pos j) known
  · intro tokens
    rw [layoutFrom_qualifier (by rw [here]), scanFrom_dot h.unsheltered splits]
    rfl

theorem Awaits.fronts (h : Awaits stage scan i other j) {text : Bytes} {dot : Bool}
    (word : isComment text = false) (dotted : dot = true → scan.afterDot = true) (place : Place) :
    Fronts stage scan other j ⟨i, text, dot⟩ place := by
  have behind := Nat.succ_pos j
  rcases Nat.eq_zero_or_pos i with rfl | past
  · exact h.fronts_label word place
  cases stage with
  | beforeOperation =>
    have done := h.ready.1
    have here : classify .beforeOperation ⟨i, text, dot⟩ = _ := classify_operation word past
    refine h.fronts_word past ?_ ?_ (fun undone => done ▸ undone) (fun _ => done) place
    · rw [here]
      exact isWord_operationKind _ text
    · rw [here]
      exact classify_operation word behind
  | atOperation isMnemonic =>
    have done := h.ready.2.1
    cases known : if dot then qualifier? isMnemonic text else none with
    | some size =>
      cases dot with
      | false => cases known
      | true => exact h.fronts_qualifier word (dotted rfl) known place
    | none =>
      have plain : dot = true → qualifier? isMnemonic text = none := by
        rintro rfl
        exact known
      have here := classify_argument word past plain
      refine h.fronts_word past ?_ ?_ (fun undone => ?_) nofun place
      · rw [here]
        exact isWord_plainKind _ text _
      · rw [here]
        exact classify_argument word behind nofun
      · rw [done] at undone
        cases undone
  | afterOperation =>
    have done := h.ready.2
    have here : classify .afterOperation ⟨i, text, dot⟩ = _ := classify_later word past
    refine h.fronts_word past ?_ ?_ (fun undone => ?_) nofun place
    · rw [here]
      exact isWord_plainKind _ text _
    · rw [here]
      exact classify_later word behind
    · rw [done] at undone
      cases undone

theorem classify_equals (k : Nat) (dot : Bool) :
    classify stage ⟨k, ['='.toUInt8], dot⟩ = classify stage ⟨k, ['='.toUInt8], false⟩ := by
  have unsized (isMnemonic : Bool) : qualifier? isMnemonic ['='.toUInt8] = none := by
    cases isMnemonic <;> decide
  cases stage <;> simp [classify, unsized]

/-- A word that is ended leaves the walks at the ends of the same token. -/
theorem Awaits.after_word (h : Awaits stage scan i other j) {text : Bytes} {next : Scan}
    {k j' : Nat} (reaches : Reaches stage scan ⟨i, text, scan.afterDot⟩ next k) (filled : text ≠ [])
    (taken : scan.Takes i text) (unsheltered : (scan.takeAll i text).isSheltered = false)
    (dot : Bool) (splits : dot = true → (scan.takeAll i text).splitsOnDot = true)
    (after : i < j') :
    Awaits (classify stage ⟨i, text, scan.afterDot⟩).2 ((scan.takeAll i text).close dot) j'
      (next.takeAll k text) (k + text.length) := by
  have word := isComment_of_takes h.rest taken
  have follows := (reaches.follows.takes taken).2
  have undone := Scan.operationDone_close_takeAll (i := i) h.rest.piece filled dot
  have done := Scan.operationDone_close_takeAll (i := k) reaches.rest.piece filled false
  have start : k = 0 ↔ i = 0 := reaches.start
  refine ⟨.close unsheltered dot, ?_, ?_, ?_⟩
  · rw [Scan.close_quote, follows.quote]
  · rw [Scan.close_depth, follows.depth]
  rcases Nat.eq_zero_or_pos i with rfl | past
  · rw [classify_label word]
    cases stage with
    | atOperation | afterOperation => exact absurd (h.past nofun) (Nat.lt_irrefl 0)
    | beforeOperation =>
      refine ⟨?_, fun zero => ?_⟩
      · rw [done, undone, reaches.done rfl, start.mpr rfl]
        simp
      · omega
  · have begun : 0 < k := by omega
    have past' : 0 < j' := by omega
    have ended : ((next.takeAll k text).close false).operationDone = true := by
      rw [done]
      simp [begun]
    cases stage with
    | beforeOperation =>
      rw [classify_operation word past]
      refine ⟨past', ended, fun dotted => ?_⟩
      -- The operation was ended by a dot, so it is not done in either line.
      rw [Scan.afterDot_close_takeAll h.rest.piece filled] at dotted
      subst dotted
      have separates := splits rfl
      simp only [Scan.splitsOnDot_takeAll h.rest.piece filled, Bool.and_eq_true,
        Bool.not_eq_true'] at separates
      rw [Scan.splitsOnDot_takeAll reaches.rest.piece filled, undone, reaches.done rfl]
      simp [begun, separates.2]
    | atOperation isMnemonic =>
      rw [classify_atOperation word past]
      exact ⟨past', ended⟩
    | afterOperation =>
      rw [classify_later word past]
      exact ⟨past', ended⟩

theorem Awaits.after_equals (h : Awaits stage scan i other j) {next : Scan} {k : Nat}
    (reaches : Reaches stage scan ⟨i, ['='.toUInt8], false⟩ next k) :
    Awaits (classify stage ⟨i, ['='.toUInt8], false⟩).2 scan.afterEquals (i + 1)
      (next.close false).afterEquals (k + 1) := by
  have word : isComment ['='.toUInt8] = false := by decide
  have rest := (Scan.AtRest.close reaches.rest.sheltered false).afterEquals
  have done : ((next.close false).afterEquals.close false).operationDone = true := by
    rw [Scan.close_idle rest.piece]
    rfl
  refine ⟨h.rest.afterEquals, ?_, ?_, ?_⟩
  · exact (next.close_quote false).trans reaches.follows.quote
  · exact (next.close_depth false).trans reaches.follows.depth
  rcases Nat.eq_zero_or_pos i with rfl | past
  · rw [classify_label word]
    cases stage with
    | atOperation | afterOperation => exact absurd (h.past nofun) (Nat.lt_irrefl 0)
    | beforeOperation => exact ⟨done, nofun⟩
  · cases stage with
    | beforeOperation =>
      rw [classify_operation word past]
      exact ⟨Nat.succ_pos i, done, nofun⟩
    | atOperation isMnemonic =>
      rw [classify_atOperation word past]
      exact ⟨Nat.succ_pos i, done⟩
    | afterOperation =>
      rw [classify_later word past]
      exact ⟨Nat.succ_pos i, done⟩

end

/-! ### Lines written out -/

/-- The tokens of some pieces, written out and walked over, are the same tokens. -/
def Relexes (stage : Stage) (pieces : List Lexeme) (other : Scan) (j : Nat) (place : Place) : Prop :=
  ∃ later, scanFrom other j (layoutFrom place (ofLexemes stage pieces)) =
      other.finished ++ later ∧
    (ofLexemes stage later).map meaning = (ofLexemes stage pieces).map meaning

section

variable {stage : Stage} {scan other : Scan} {i j : Nat} {text : Bytes} {pieces : List Lexeme}

theorem Awaits.relexes_comment (h : Awaits stage scan i other j) (comment : isComment text = true)
    (place : Place) : Relexes stage [⟨i, text, false⟩] other j place := by
  have kind (k : Nat) : classify stage ⟨k, text, false⟩ = (.comment, stage) := by
    simp [classify, comment]
  have closed := Scan.AtRest.close h.unsheltered false
  have whole : scanFrom (other.close false) (j + 1) text = [⟨j + 1, text, false⟩] := by
    cases text with
    | nil => cases comment
    | cons b text =>
      have begins : b = ';'.toUInt8 ∨ b = '*'.toUInt8 := by simpa [isComment] using comment
      rw [scanFrom_comment closed.sheltered (begins.imp_right fun star => ⟨star, closed.piece⟩),
        closed.finished, List.nil_append]
  refine ⟨[⟨j + 1, text, false⟩], ?_, ?_⟩
  · rw [ofLexemes_cons, layoutFrom_comment (by rw [kind]),
      scanFrom_separator h.unsheltered (by decide)]
    simp [Token.text, ofLexemes, layoutFrom, whole]
  · rw [ofLexemes_cons, ofLexemes_cons, kind, kind]
    rfl

theorem Awaits.relexes_word (h : Awaits stage scan i other j) (filled : text ≠ [])
    (taken : scan.Takes i text)
    (rest : ∀ next k place', Reaches stage scan ⟨i, text, scan.afterDot⟩ next k →
      Relexes (classify stage ⟨i, text, scan.afterDot⟩).2 pieces (next.takeAll k text)
        (k + text.length) place') (place : Place) :
    Relexes stage (⟨i, text, scan.afterDot⟩ :: pieces) other j place := by
  have word := isComment_of_takes h.rest taken
  obtain ⟨next, k, place', reaches, written⟩ := h.fronts word id place
  obtain ⟨later, scanned, same⟩ := rest next k place' reaches
  refine ⟨⟨k, text, next.afterDot⟩ :: later, ?_, ?_⟩
  · rw [ofLexemes_cons, written, scanFrom_takeAll (reaches.follows.takes taken).1, scanned,
      Scan.finished_takeAll reaches.rest.piece filled]
    rfl
  · rw [ofLexemes_cons, ofLexemes_cons, reaches.classified, List.map_cons, List.map_cons, same]
    rfl

theorem Awaits.relexes_equals (h : Awaits stage scan i other j)
    (rest : ∀ next k place', Reaches stage scan ⟨i, ['='.toUInt8], false⟩ next k →
      Relexes (classify stage ⟨i, ['='.toUInt8], false⟩).2 pieces (next.close false).afterEquals
        (k + 1) place') (place : Place) :
    Relexes stage (⟨i, ['='.toUInt8], false⟩ :: pieces) other j place := by
  have word : isComment ['='.toUInt8] = false := by decide
  have undotted : false = true → scan.afterDot = true := nofun
  obtain ⟨next, k, place', reaches, written⟩ := h.fronts word undotted place
  obtain ⟨later, scanned, same⟩ := rest next k place' reaches
  have closed := (Scan.AtRest.close reaches.rest.sheltered false).afterEquals
  have alike := reaches.classified
  rw [classify_equals] at alike
  refine ⟨⟨k, ['='.toUInt8], false⟩ :: later, ?_, ?_⟩
  · rw [ofLexemes_cons, written, List.singleton_append, scanFrom_equals reaches.rest.sheltered,
      reaches.rest.finished, scanned, closed.finished]
    rfl
  · rw [ofLexemes_cons, ofLexemes_cons, alike, List.map_cons, List.map_cons, same]
    rfl

theorem Awaits.relexes (h : Pieced scan i pieces) (awaits : Awaits stage scan i other j)
    (place : Place) : Relexes stage pieces other j place := by
  induction h generalizing stage other j place with
  | nil => exact ⟨[], (List.append_nil _).symm, rfl⟩
  | gap _ ih =>
    refine ih ⟨⟨awaits.rest.sheltered, awaits.rest.piece⟩, awaits.quote, awaits.depth, ?_⟩ place
    have ready := awaits.ready
    cases stage with
    | beforeOperation => exact ⟨ready.1, nofun⟩
    | atOperation => exact ⟨Nat.succ_pos _, ready.2.1, nofun⟩
    | afterOperation => exact ⟨Nat.succ_pos _, ready.2⟩
  | comment begins =>
    refine awaits.relexes_comment ?_ place
    rcases begins with rfl | rfl <;> simp [isComment]
  | equals _ ih =>
    refine awaits.relexes_equals (fun next k place' reaches => ?_) place
    exact ih (awaits.after_equals reaches) place'
  | last filled taken =>
    refine awaits.relexes_word filled taken (fun _ _ _ _ => ?_) place
    exact ⟨[], (List.append_nil _).symm, rfl⟩
  | word filled taken unsheltered dot splits after _ ih =>
    refine awaits.relexes_word filled taken (fun next k place' reaches => ?_) place
    exact ih (awaits.after_word reaches filled taken unsheltered dot splits after) place'

end

theorem map_meaning_normal (line : Bytes) :
    (ofLine (normal line)).map meaning = (ofLine line).map meaning := by
  have start : Awaits .beforeOperation .initial 0 .initial 0 :=
    ⟨⟨rfl, rfl⟩, rfl, rfl, rfl, fun _ => ⟨rfl, rfl⟩⟩
  obtain ⟨later, scanned, same⟩ := start.relexes (pieced_ofLine line) .operation
  have pieces : Lexeme.ofLine (normal line) = later := scanned
  rw [ofLine, pieces, same]
  rfl

/-! ### Statements -/

/-- A token moved to the beginning of the line. -/
def unplaced (token : Token) : Token := ⟨⟨0, token.text, false⟩, token.kind⟩

theorem map_unplaced {xs ys : List Token} (h : xs.map meaning = ys.map meaning) :
    xs.map unplaced = ys.map unplaced := by
  have factor : unplaced = (fun (text, kind) => ⟨⟨0, text, false⟩, kind⟩) ∘ meaning := rfl
  rw [factor, ← List.map_map, h, List.map_map]

theorem map_of_unplaced {α : Type} {f : Token → α} (same : f ∘ unplaced = f) {xs ys : List Token}
    (h : xs.map unplaced = ys.map unplaced) : xs.map f = ys.map f := by
  rw [← same, ← List.map_map, h, List.map_map]

theorem findSome?_of_unplaced {α : Type} {f : Token → Option α} (same : f ∘ unplaced = f)
    {xs ys : List Token} (h : xs.map unplaced = ys.map unplaced) :
    xs.findSome? f = ys.findSome? f := by
  rw [← same, ← List.findSome?_map, h, List.findSome?_map]

theorem filter_isWord_of_unplaced {xs ys : List Token} (h : xs.map unplaced = ys.map unplaced) :
    (xs.filter isWord).map unplaced = (ys.filter isWord).map unplaced := by
  have same : isWord ∘ unplaced = isWord := rfl
  rw [← same, ← List.filter_map, h, List.filter_map]

end Token

namespace Statement

/-- The statements differ in the positions of their parts at most. -/
structure Alike (s t : Statement) : Prop where
  label : s.label.map Label.name = t.label.map Label.name
  opcode : s.opcode.map (fun opcode => (opcode.operation, opcode.size)) =
    t.opcode.map fun opcode => (opcode.operation, opcode.size)
  operands : s.operands.map (fun operand => (operand.text, operand.kind)) =
    t.operands.map fun operand => (operand.text, operand.kind)
  comment : s.comment = t.comment

theorem Alike.kind_eq {s t : Statement} (h : s.Alike t) : s.kind = t.kind := by
  have label : s.label.isSome = t.label.isSome := by
    rw [← Option.isSome_map (f := Label.name), h.label, Option.isSome_map]
  have opcode := h.opcode
  unfold kind
  cases written : s.opcode with
  | none =>
    rw [written, Option.map_none, eq_comm, Option.map_eq_none_iff] at opcode
    rw [opcode, label]
  | some first =>
    rw [written, Option.map_some, eq_comm, Option.map_eq_some_iff] at opcode
    obtain ⟨second, written', same⟩ := opcode
    have operation : second.operation = first.operation := congrArg Prod.fst same
    rw [written']
    simp only [operation]

theorem alike_ofTokens {xs ys : List Token} (h : xs.map Token.meaning = ys.map Token.meaning)
    (text text' : Bytes) : (ofTokens text xs).Alike (ofTokens text' ys) := by
  have unplaced := Token.map_unplaced h
  have words := Token.filter_isWord_of_unplaced unplaced
  refine ⟨?_, ?_, ?_, ?_⟩
  · have named : (Option.map Label.name ∘ Token.label?) ∘ Token.unplaced =
        Option.map Label.name ∘ Token.label? := by
      funext token
      simp only [Function.comp, Token.label?, Token.unplaced]
      split <;> rfl
    simp only [ofTokens, List.map_findSome?]
    exact Token.findSome?_of_unplaced named unplaced
  · have size : xs.findSome? Token.size? = ys.findSome? Token.size? :=
      Token.findSome?_of_unplaced rfl unplaced
    have opcodes := Token.map_of_unplaced
      (f := fun token => (token.operation, ys.findSome? Token.size?)) rfl words
    have first := congrArg List.head? opcodes
    rw [List.head?_map, List.head?_map] at first
    simp only [ofTokens, Option.map_map, size]
    exact first
  · have operands := Token.map_of_unplaced
      (f := fun token => (token.text, token.operandKind)) rfl words
    have others := congrArg List.tail operands
    rw [← List.map_tail, ← List.map_tail] at others
    simp only [ofTokens, List.map_map]
    exact others
  · have comment : xs.findSome? Token.comment? = ys.findSome? Token.comment? :=
      Token.findSome?_of_unplaced rfl unplaced
    simp only [ofTokens, comment]

/-- Tokens do not depend on the layout of their line. A line and the same tokens in a plain layout
have the same tokens up to positions, so they are the same statement up to positions. -/
theorem ofLine_normal (line : Bytes) :
    (Token.ofLine (Token.normal line)).map Token.meaning = (Token.ofLine line).map Token.meaning ∧
      (ofLine (Token.normal line)).kind = (ofLine line).kind ∧
      (ofLine (Token.normal line)).Alike (ofLine line) := by
  have tokens := Token.map_meaning_normal line
  have alike : (ofLine (Token.normal line)).Alike (ofLine line) := alike_ofTokens tokens _ _
  exact ⟨tokens, alike.kind_eq, alike⟩

example : Token.normal (Bytes.ofString "a:\tmove.l.w  .5 ( d0 ) .x;c") =
    Bytes.ofString "a move.l w,.5,( d0 ),.x ;c" := by
  decide +kernel

end Statement

end Asm68k
