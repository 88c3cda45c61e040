import Asm68k.Lexeme

/-!
How a source line falls into pieces. `Takes` says that some bytes go into one piece, and `Walks`
lists what can stand in a line between one piece and the next; `Walks.ofLine` shows that the walk
over the bytes finds nothing else. Which bytes go into a piece depends on little of the scan, so
that they do so in other places too (`Follows.takes`).
-/

namespace Asm68k.Lexeme

namespace Scan

/-- Whether a byte ends the piece in progress or cannot begin one, once it has been noted. -/
def breaks (scan : Scan) (b : UInt8) : Bool :=
  !scan.isSheltered &&
    (b == ';'.toUInt8 || (b == '*'.toUInt8 && scan.piece.isNone) || b == '='.toUInt8 ||
      isSeparator b || (b == '.'.toUInt8 && scan.splitsOnDot))

/-- The bytes from position `i` on all go into one piece. -/
def Takes (scan : Scan) (i : Nat) : Bytes → Prop
  | [] => True
  | b :: rest => (scan.note b).breaks b = false ∧ Takes ((scan.note b).take i b) (i + 1) rest

def takeAll (scan : Scan) (i : Nat) : Bytes → Scan
  | [] => scan
  | b :: rest => ((scan.note b).take i b).takeAll (i + 1) rest

/-- The scan after an equals sign, when no piece was in progress. -/
def afterEquals (scan : Scan) : Scan := { scan with afterDot := false, operationDone := true }

/-- No piece is in progress and no shelter is open. -/
structure AtRest (scan : Scan) : Prop where
  sheltered : scan.isSheltered = false
  piece : scan.piece = none

/-! ### Bytes that go into a piece -/

section

variable {scan : Scan} {i : Nat} {text : Bytes}

@[simp] theorem note_piece (scan : Scan) (b : UInt8) : (scan.note b).piece = scan.piece := rfl

@[simp] theorem note_afterDot (scan : Scan) (b : UInt8) : (scan.note b).afterDot = scan.afterDot :=
  rfl

@[simp] theorem note_operationDone (scan : Scan) (b : UInt8) :
    (scan.note b).operationDone = scan.operationDone := rfl

@[simp] theorem take_quote (scan : Scan) (i : Nat) (b : UInt8) :
    (scan.take i b).quote = scan.quote := by
  unfold take
  split <;> rfl

@[simp] theorem take_depth (scan : Scan) (i : Nat) (b : UInt8) :
    (scan.take i b).depth = scan.depth := by
  unfold take
  split <;> rfl

@[simp] theorem take_afterDot (scan : Scan) (i : Nat) (b : UInt8) :
    (scan.take i b).afterDot = scan.afterDot := by
  unfold take
  split <;> rfl

@[simp] theorem take_operationDone (scan : Scan) (i : Nat) (b : UInt8) :
    (scan.take i b).operationDone = scan.operationDone := by
  unfold take
  split <;> rfl

@[simp] theorem takeAll_afterDot (scan : Scan) (i : Nat) (text : Bytes) :
    (scan.takeAll i text).afterDot = scan.afterDot := by
  induction text generalizing scan i with
  | nil => rfl
  | cons b rest ih => rw [takeAll, ih, take_afterDot, note_afterDot]

@[simp] theorem takeAll_operationDone (scan : Scan) (i : Nat) (text : Bytes) :
    (scan.takeAll i text).operationDone = scan.operationDone := by
  induction text generalizing scan i with
  | nil => rfl
  | cons b rest ih => rw [takeAll, ih, take_operationDone, note_operationDone]

theorem takeAll_piece_some {start : Nat} {bytes : Bytes} (begun : scan.piece = some (start, bytes)) :
    (scan.takeAll i text).piece = some (start, text.reverse ++ bytes) := by
  induction text generalizing scan i bytes with
  | nil => exact begun
  | cons b rest ih =>
    have next : ((scan.note b).take i b).piece = some (start, b :: bytes) := by
      simp only [take, note_piece, begun]
    rw [takeAll, ih next]
    simp

theorem takeAll_piece (idle : scan.piece = none) (filled : text ≠ []) :
    (scan.takeAll i text).piece = some (i, text.reverse) := by
  cases text with
  | nil => exact (filled rfl).elim
  | cons b rest =>
    have next : ((scan.note b).take i b).piece = some (i, [b]) := by
      simp only [take, note_piece, idle]
    rw [takeAll, takeAll_piece_some next]
    simp

theorem finished_takeAll (idle : scan.piece = none) (filled : text ≠ []) :
    (scan.takeAll i text).finished = [⟨i, text, scan.afterDot⟩] := by
  simp [finished, takeAll_piece idle filled]

@[simp] theorem close_quote (scan : Scan) (dot : Bool) : (scan.close dot).quote = scan.quote := by
  unfold close
  split <;> rfl

@[simp] theorem close_depth (scan : Scan) (dot : Bool) : (scan.close dot).depth = scan.depth := by
  unfold close
  split <;> rfl

@[simp] theorem close_false_afterDot (scan : Scan) : (scan.close false).afterDot = false := by
  unfold close
  split <;> rfl

theorem afterDot_close_takeAll (idle : scan.piece = none) (filled : text ≠ []) (dot : Bool) :
    ((scan.takeAll i text).close dot).afterDot = dot := by
  simp [close, takeAll_piece idle filled]

theorem operationDone_close_takeAll (idle : scan.piece = none) (filled : text ≠ []) (dot : Bool) :
    ((scan.takeAll i text).close dot).operationDone = (scan.operationDone || (0 < i && !dot)) := by
  simp [close, takeAll_piece idle filled]

theorem splitsOnDot_takeAll (idle : scan.piece = none) (filled : text ≠ []) :
    (scan.takeAll i text).splitsOnDot = (0 < i && !scan.operationDone) := by
  simp [splitsOnDot, takeAll_piece idle filled]

theorem takeAll_snoc (b : UInt8) :
    scan.takeAll i (text ++ [b]) = ((scan.takeAll i text).note b).take (i + text.length) b := by
  induction text generalizing scan i with
  | nil => rfl
  | cons c rest ih =>
    rw [List.cons_append, takeAll, ih, takeAll, List.length_cons]
    congr 1
    omega

theorem Takes.snoc {b : UInt8} (taken : scan.Takes i text)
    (next : ((scan.takeAll i text).note b).breaks b = false) : scan.Takes i (text ++ [b]) := by
  induction text generalizing scan i with
  | nil => exact ⟨next, trivial⟩
  | cons c rest ih => exact ⟨taken.1, ih taken.2 next⟩

end

/-! ### Bytes between pieces -/

/-- The bytes that can end a piece; they change neither quotation nor depth. -/
theorem note_of_mark {scan : Scan} {b : UInt8}
    (mark : b = ';'.toUInt8 ∨ b = '*'.toUInt8 ∨ b = '='.toUInt8 ∨ isSeparator b = true ∨
      b = '.'.toUInt8) : scan.note b = scan := by
  have plain : isQuoteMark b = false ∧ (b == '('.toUInt8) = false ∧ (b == ')'.toUInt8) = false := by
    simp only [isSeparator, Bool.or_eq_true, beq_iff_eq] at mark
    rcases mark with rfl | rfl | rfl | (((rfl | rfl) | rfl) | rfl) | rfl <;> decide
  obtain ⟨quote, opening, closing⟩ := plain
  simp [note, quoteAfter, quote, opening, closing]

theorem breaks_cases {scan : Scan} {b : UInt8} (h : (scan.note b).breaks b = true) :
    scan.isSheltered = false ∧
      ((b = ';'.toUInt8 ∨ b = '*'.toUInt8 ∧ scan.piece = none) ∨ b = '='.toUInt8 ∨
        isSeparator b = true ∨ b = '.'.toUInt8 ∧ scan.splitsOnDot = true) := by
  simp only [breaks, Bool.and_eq_true, Bool.or_eq_true, beq_iff_eq, Bool.not_eq_true',
    Option.isNone_iff_eq_none] at h
  obtain ⟨open_, mark⟩ := h
  have same : scan.note b = scan := by
    refine note_of_mark ?_
    rcases mark with (((semicolon | star) | equals) | separator) | dot
    · exact .inl semicolon
    · exact .inr (.inl star.1)
    · exact .inr (.inr (.inl equals))
    · exact .inr (.inr (.inr (.inl separator)))
    · exact .inr (.inr (.inr (.inr dot.1)))
  rw [same] at open_ mark
  refine ⟨open_, ?_⟩
  rcases mark with (((semicolon | star) | equals) | separator) | dot
  · exact .inl (.inl semicolon)
  · exact .inl (.inr star)
  · exact .inr (.inl equals)
  · exact .inr (.inr (.inl separator))
  · exact .inr (.inr (.inr dot))

end Scan

section

variable {scan : Scan} {i : Nat} {b : UInt8} {rest : Bytes}

theorem scanFrom_take (taken : (scan.note b).breaks b = false) :
    scanFrom scan i (b :: rest) = scanFrom ((scan.note b).take i b) (i + 1) rest := by
  rw [scanFrom]
  unfold Scan.breaks at taken
  cases sheltered : (scan.note b).isSheltered with
  | true => simp
  | false =>
    rw [sheltered] at taken
    simp only [Bool.not_false, Bool.true_and, Bool.or_eq_false_iff] at taken
    obtain ⟨⟨⟨⟨semicolon, star⟩, equals⟩, separator⟩, dot⟩ := taken
    simp only [semicolon, star, equals, separator, dot, Bool.or_self, Bool.false_eq_true, if_false]

theorem scanFrom_takeAll {text : Bytes} (taken : scan.Takes i text) :
    scanFrom scan i (text ++ rest) = scanFrom (scan.takeAll i text) (i + text.length) rest := by
  induction text generalizing scan i with
  | nil => rfl
  | cons b text ih =>
    rw [List.cons_append, scanFrom_take taken.1, ih taken.2, Scan.takeAll, List.length_cons]
    congr 1
    omega

theorem scanFrom_comment (unsheltered : scan.isSheltered = false)
    (begins : b = ';'.toUInt8 ∨ b = '*'.toUInt8 ∧ scan.piece = none) :
    scanFrom scan i (b :: rest) = scan.finished ++ [⟨i, b :: rest, false⟩] := by
  have same : scan.note b = scan := Scan.note_of_mark (begins.imp_right fun star => .inl star.1)
  rw [scanFrom, same]
  rcases begins with rfl | ⟨rfl, idle⟩
  · simp [unsheltered]
  · simp [unsheltered, idle]

theorem scanFrom_equals (unsheltered : scan.isSheltered = false) :
    scanFrom scan i ('='.toUInt8 :: rest) = scan.finished ++ ⟨i, ['='.toUInt8], false⟩ ::
      scanFrom (scan.close false).afterEquals (i + 1) rest := by
  have same : scan.note '='.toUInt8 = scan := Scan.note_of_mark (by simp)
  have other : ('='.toUInt8 == ';'.toUInt8) = false ∧ ('='.toUInt8 == '*'.toUInt8) = false := by
    decide
  have closed : (scan.close false).afterEquals = { scan.close false with operationDone := true } := by
    rw [Scan.afterEquals, Scan.close]
    split <;> rfl
  rw [scanFrom, same, closed]
  simp [unsheltered, other]

theorem scanFrom_separator (unsheltered : scan.isSheltered = false)
    (separator : Scan.isSeparator b = true) :
    scanFrom scan i (b :: rest) = scan.finished ++ scanFrom (scan.close false) (i + 1) rest := by
  have same : scan.note b = scan := Scan.note_of_mark (.inr (.inr (.inr (.inl separator))))
  have other : (b == ';'.toUInt8) = false ∧ (b == '*'.toUInt8) = false ∧
      (b == '='.toUInt8) = false := by
    simp only [Scan.isSeparator, Bool.or_eq_true, beq_iff_eq] at separator
    rcases separator with ((rfl | rfl) | rfl) | rfl <;> decide
  rw [scanFrom, same]
  simp [unsheltered, other, separator]

theorem scanFrom_dot (unsheltered : scan.isSheltered = false) (splits : scan.splitsOnDot = true) :
    scanFrom scan i ('.'.toUInt8 :: rest) =
      scan.finished ++ scanFrom (scan.close true) (i + 1) rest := by
  have same : scan.note '.'.toUInt8 = scan := Scan.note_of_mark (by simp)
  have other : ('.'.toUInt8 == ';'.toUInt8) = false ∧ ('.'.toUInt8 == '*'.toUInt8) = false ∧
      ('.'.toUInt8 == '='.toUInt8) = false ∧ Scan.isSeparator '.'.toUInt8 = false := by
    decide
  rw [scanFrom, same]
  simp [unsheltered, other, splits]

end

/-! ### Pieces of a line -/

/-- The pieces that follow when none is in progress, and what stands around them. -/
inductive Pieced : Scan → Nat → List Lexeme → Prop where
  | nil {scan : Scan} {i : Nat} : Pieced scan i []
  | gap {scan : Scan} {i : Nat} {pieces : List Lexeme}
      (rest : Pieced { scan with afterDot := false } (i + 1) pieces) : Pieced scan i pieces
  | comment {scan : Scan} {i : Nat} {b : UInt8} {text : Bytes}
      (begins : b = ';'.toUInt8 ∨ b = '*'.toUInt8) : Pieced scan i [⟨i, b :: text, false⟩]
  | equals {scan : Scan} {i : Nat} {pieces : List Lexeme}
      (rest : Pieced scan.afterEquals (i + 1) pieces) :
      Pieced scan i (⟨i, ['='.toUInt8], false⟩ :: pieces)
  /-- A piece up to the end of the line, with shelter left open or not. -/
  | last {scan : Scan} {i : Nat} {text : Bytes} (filled : text ≠ []) (taken : scan.Takes i text) :
      Pieced scan i [⟨i, text, scan.afterDot⟩]
  /-- A piece that is ended by a dot or otherwise. -/
  | word {scan : Scan} {i j : Nat} {text : Bytes} {pieces : List Lexeme} (filled : text ≠ [])
      (taken : scan.Takes i text) (unsheltered : (scan.takeAll i text).isSheltered = false)
      (dot : Bool) (splits : dot = true → (scan.takeAll i text).splitsOnDot = true)
      (after : i < j) (rest : Pieced ((scan.takeAll i text).close dot) j pieces) :
      Pieced scan i (⟨i, text, scan.afterDot⟩ :: pieces)

section

variable {scan : Scan}

theorem Scan.close_idle (idle : scan.piece = none) (dot : Bool) :
    scan.close dot = { scan with afterDot := false } := by
  simp [Scan.close, idle]

theorem Scan.AtRest.close (unsheltered : scan.isSheltered = false) (dot : Bool) :
    (scan.close dot).AtRest := by
  unfold Scan.close
  split
  · exact ⟨unsheltered, ‹_›⟩
  · exact ⟨unsheltered, rfl⟩

theorem Scan.AtRest.finished (rest : scan.AtRest) : scan.finished = [] := by
  rw [Scan.finished, rest.piece]

theorem Scan.AtRest.afterEquals (rest : scan.AtRest) : scan.afterEquals.AtRest :=
  ⟨rest.sheltered, rest.piece⟩

theorem Scan.close_close (scan : Scan) : (scan.close false).close false = scan.close false := by
  unfold Scan.close
  cases scan.piece <;> rfl

/-- A byte that ends every piece is read with nothing in progress. -/
theorem scanFrom_close {i : Nat} {b : UInt8} {rest : Bytes} (unsheltered : scan.isSheltered = false)
    (mark : b = ';'.toUInt8 ∨ b = '='.toUInt8 ∨ Scan.isSeparator b = true) :
    scanFrom scan i (b :: rest) = scan.finished ++ scanFrom (scan.close false) i (b :: rest) := by
  have closed := Scan.AtRest.close unsheltered false
  rcases mark with semicolon | rfl | separator
  · rw [scanFrom_comment unsheltered (.inl semicolon),
      scanFrom_comment closed.sheltered (.inl semicolon), closed.finished, List.nil_append]
  · rw [scanFrom_equals unsheltered, scanFrom_equals closed.sheltered, closed.finished,
      List.nil_append, Scan.close_close]
  · rw [scanFrom_separator unsheltered separator, scanFrom_separator closed.sheltered separator,
      closed.finished, List.nil_append, Scan.close_close]

theorem scanFrom_word {i : Nat} {text rest : Bytes} (idle : scan.AtRest) (filled : text ≠ [])
    (taken : scan.Takes i text) (unsheltered : (scan.takeAll i text).isSheltered = false)
    (ends : ∀ b ∈ rest.head?, b = ';'.toUInt8 ∨ b = '='.toUInt8 ∨ Scan.isSeparator b = true) :
    scanFrom scan i (text ++ rest) = ⟨i, text, scan.afterDot⟩ ::
      scanFrom ((scan.takeAll i text).close false) (i + text.length) rest := by
  rw [scanFrom_takeAll taken]
  cases rest with
  | nil =>
    have closed := Scan.AtRest.close unsheltered false
    rw [scanFrom, scanFrom, Scan.finished_takeAll idle.piece filled, closed.finished]
  | cons b rest =>
    rw [scanFrom_close unsheltered (ends b rfl), Scan.finished_takeAll idle.piece filled]
    rfl

/-- The byte that ends a piece and goes into none, if it is a dot. -/
def ending (dot : Bool) : Bytes := if dot then ['.'.toUInt8] else []

/-- A relation between a scan with no piece in progress, the rest of a line and its pieces that
allows each thing that can come next. -/
structure Walks (motive : Scan → Nat → Bytes → List Lexeme → Prop) : Prop where
  nil {scan : Scan} {i : Nat} : motive scan i [] []
  gap {scan : Scan} {i : Nat} {b : UInt8} {rest : Bytes} {pieces : List Lexeme}
    (separator : Scan.isSeparator b = true)
    (later : motive { scan with afterDot := false } (i + 1) rest pieces) :
    motive scan i (b :: rest) pieces
  comment {scan : Scan} {i : Nat} {b : UInt8} {rest : Bytes}
    (begins : b = ';'.toUInt8 ∨ b = '*'.toUInt8) :
    motive scan i (b :: rest) [⟨i, b :: rest, false⟩]
  equals {scan : Scan} {i : Nat} {rest : Bytes} {pieces : List Lexeme}
    (later : motive scan.afterEquals (i + 1) rest pieces) :
    motive scan i ('='.toUInt8 :: rest) (⟨i, ['='.toUInt8], false⟩ :: pieces)
  last {scan : Scan} {i : Nat} {text : Bytes} (idle : scan.AtRest) (filled : text ≠ [])
    (taken : scan.Takes i text) : motive scan i text [⟨i, text, scan.afterDot⟩]
  word {scan : Scan} {i : Nat} {text rest : Bytes} {pieces : List Lexeme} (dot : Bool)
    (idle : scan.AtRest) (filled : text ≠ []) (taken : scan.Takes i text)
    (unsheltered : (scan.takeAll i text).isSheltered = false)
    (splits : dot = true → (scan.takeAll i text).splitsOnDot = true)
    (later : motive ((scan.takeAll i text).close dot) (i + text.length + (ending dot).length) rest
      pieces) :
    motive scan i (text ++ (ending dot ++ rest)) (⟨i, text, scan.afterDot⟩ :: pieces)

section

variable {motive : Scan → Nat → Bytes → List Lexeme → Prop}

theorem Walks.mark (walks : Walks motive) {rest : Bytes} {i : Nat} {b : UInt8}
    (resume : ∀ next : Scan, next.AtRest → motive next (i + 1) rest (scanFrom next (i + 1) rest))
    (idle : scan.AtRest)
    (mark : (b = ';'.toUInt8 ∨ b = '*'.toUInt8) ∨ b = '='.toUInt8 ∨ Scan.isSeparator b = true) :
    motive scan i (b :: rest) (scanFrom scan i (b :: rest)) := by
  have closed := Scan.AtRest.close idle.sheltered false
  rcases mark with begins | rfl | separator
  · rw [scanFrom_comment idle.sheltered (begins.imp_right fun star => ⟨star, idle.piece⟩),
      idle.finished]
    exact walks.comment begins
  · have later := resume _ closed.afterEquals
    rw [scanFrom_equals idle.sheltered, idle.finished]
    rw [Scan.close_idle idle.piece] at later ⊢
    exact walks.equals later
  · have later := resume _ closed
    rw [scanFrom_separator idle.sheltered separator, idle.finished]
    rw [Scan.close_idle idle.piece] at later ⊢
    exact walks.gap separator later

theorem Walks.scanFrom_takeAll (walks : Walks motive) {start : Nat} {text : Bytes}
    (idle : scan.AtRest) (taken : scan.Takes start text) (rest : Bytes) :
    motive scan start (text ++ rest)
      (scanFrom (scan.takeAll start text) (start + text.length) rest) := by
  induction rest generalizing scan start text with
  | nil =>
    rw [scanFrom, List.append_nil]
    by_cases empty : text = []
    · subst empty
      rw [Scan.takeAll, idle.finished]
      exact walks.nil
    · rw [Scan.finished_takeAll idle.piece empty]
      exact walks.last idle empty taken
  | cons b rest ih =>
    have resume (k : Nat) (next : Scan) (rested : next.AtRest) :
        motive next k rest (scanFrom next k rest) := by
      have nothing : next.Takes k [] := trivial
      exact ih rested nothing
    cases breaks : ((scan.takeAll start text).note b).breaks b with
    | false =>
      have next := ih idle (taken.snoc breaks)
      rw [List.length_append, List.length_singleton, List.append_assoc, ← Nat.add_assoc] at next
      rw [scanFrom_take breaks, ← Scan.takeAll_snoc]
      exact next
    | true =>
      obtain ⟨unsheltered, mark⟩ := Scan.breaks_cases breaks
      by_cases empty : text = []
      · subst empty
        refine walks.mark (resume _) idle ?_
        rcases mark with begins | equals | separator | dot
        · exact .inl (begins.imp_right And.left)
        · exact .inr (.inl equals)
        · exact .inr (.inr separator)
        · have splits := dot.2
          simp [Scan.takeAll, Scan.splitsOnDot, idle.piece] at splits
      -- The byte ends the piece; all but a dot are then read again.
      have again (mark : b = ';'.toUInt8 ∨ b = '='.toUInt8 ∨ Scan.isSeparator b = true) :
          motive scan start (text ++ b :: rest)
            (scanFrom (scan.takeAll start text) (start + text.length) (b :: rest)) := by
        rw [scanFrom_close unsheltered mark, Scan.finished_takeAll idle.piece empty]
        refine walks.word false idle empty taken unsheltered nofun ?_
        exact walks.mark (resume _) (.close unsheltered false) (mark.imp_left .inl)
      rcases mark with (semicolon | star) | equals | separator | ⟨rfl, splits⟩
      · exact again (.inl semicolon)
      · rw [Scan.takeAll_piece idle.piece empty] at star
        cases star.2
      · exact again (.inr (.inl equals))
      · exact again (.inr (.inr separator))
      · rw [scanFrom_dot unsheltered splits, Scan.finished_takeAll idle.piece empty]
        refine walks.word true idle empty taken unsheltered (fun _ => splits) ?_
        exact resume _ _ (.close unsheltered true)

theorem Walks.ofLine (walks : Walks motive) (line : Bytes) : motive .initial 0 line (ofLine line) := by
  have idle : Scan.initial.AtRest := ⟨rfl, rfl⟩
  have nothing : Scan.initial.Takes 0 [] := trivial
  exact walks.scanFrom_takeAll idle nothing line

end

theorem walks_pieced : Walks fun scan i _ pieces => Pieced scan i pieces where
  nil := .nil
  gap _ later := .gap later
  comment := .comment
  equals := .equals
  last _ := .last
  word dot _ filled taken unsheltered splits later := by
    have length := List.length_pos_iff.mpr filled
    exact .word filled taken unsheltered dot splits (by omega) later

theorem pieced_ofLine (line : Bytes) : Pieced .initial 0 (ofLine line) := walks_pieced.ofLine line

end

/-! ### The same bytes elsewhere -/

namespace Scan

/-- Where the piece in progress began, or begins with the byte at position `i`. -/
def startAt (scan : Scan) (i : Nat) : Nat :=
  match scan.piece with
  | none => i
  | some (start, _) => start

def wouldSplit (scan : Scan) (i : Nat) : Bool := 0 < scan.startAt i && !scan.operationDone

/-- The other scan takes the bytes that this one takes: it is in the same shelter, and ends no piece
at a dot where this one does not. -/
structure Follows (scan : Scan) (i : Nat) (other : Scan) (j : Nat) : Prop where
  quote : other.quote = scan.quote
  depth : other.depth = scan.depth
  piece : other.piece.isNone = scan.piece.isNone
  splits : other.wouldSplit j = true → scan.wouldSplit i = true

theorem splitsOnDot_eq (scan : Scan) (i : Nat) :
    scan.splitsOnDot = (!scan.piece.isNone && scan.wouldSplit i) := by
  unfold splitsOnDot wouldSplit startAt
  split <;> simp [*]

theorem wouldSplit_take (scan : Scan) (i : Nat) (b : UInt8) :
    ((scan.note b).take i b).wouldSplit (i + 1) = scan.wouldSplit i := by
  unfold wouldSplit startAt
  cases begun : scan.piece <;> simp [take, begun]

namespace Follows

variable {scan other : Scan} {i j : Nat} {b : UInt8}

theorem quote_note (h : scan.Follows i other j) (b : UInt8) :
    (other.note b).quote = (scan.note b).quote := by
  simp only [note, h.quote]

theorem depth_note (h : scan.Follows i other j) (b : UInt8) :
    (other.note b).depth = (scan.note b).depth := by
  simp only [note, h.quote, h.depth]

theorem breaks (h : scan.Follows i other j) (taken : (scan.note b).breaks b = false) :
    (other.note b).breaks b = false := by
  have splits : (other.note b).splitsOnDot = true → (scan.note b).splitsOnDot = true := by
    rw [splitsOnDot_eq _ j, splitsOnDot_eq _ i, note_piece, note_piece, h.piece]
    simp only [Bool.and_eq_true]
    exact And.imp_right h.splits
  have sheltered : (other.note b).isSheltered = (scan.note b).isSheltered := by
    rw [isSheltered, h.quote_note, h.depth_note, isSheltered]
  unfold Scan.breaks at taken ⊢
  rw [sheltered, note_piece, h.piece]
  cases dots : (other.note b).splitsOnDot with
  | false =>
    simp only [Bool.and_eq_false_iff, Bool.or_eq_false_iff] at taken ⊢
    exact taken.imp_right fun others => ⟨others.1, .inr trivial⟩
  | true =>
    rw [splits dots] at taken
    exact taken

theorem take (h : scan.Follows i other j) (b : UInt8) :
    ((scan.note b).take i b).Follows (i + 1) ((other.note b).take j b) (j + 1) where
  quote := by rw [take_quote, take_quote, h.quote_note]
  depth := by rw [take_depth, take_depth, h.depth_note]
  piece := by
    unfold Scan.take
    split <;> split <;> rfl
  splits := by
    rw [wouldSplit_take, wouldSplit_take]
    exact h.splits

theorem takes (h : scan.Follows i other j) {text : Bytes} (taken : scan.Takes i text) :
    other.Takes j text ∧ (scan.takeAll i text).Follows (i + text.length) (other.takeAll j text)
      (j + text.length) := by
  induction text generalizing scan other i j with
  | nil => exact ⟨trivial, h⟩
  | cons b text ih =>
    obtain ⟨later, follows⟩ := ih (h.take b) taken.2
    have index (n : Nat) : n + (b :: text).length = n + 1 + text.length := by
      rw [List.length_cons]
      omega
    rw [index, index]
    exact ⟨⟨h.breaks taken.1, later⟩, follows⟩

end Follows

end Scan

end Asm68k.Lexeme
