import Asm68k.Report.Plain
import Asm68k.Proofs.Decimal
import Asm68k.Proofs.Pattern
import Asm68k.Proofs.Rune

/-!
Colours in reports. Without its control sequences a coloured report is the plain one, and a source text
starts in the same column of both: `render_decolored`. The parts of a report are joined by `Shows`,
which says what is left of a coloured part whatever comes after it.
-/

namespace Asm68k

/-! ### Numbers -/

namespace Bytes

/-- An ASCII byte that is no control character. -/
def IsPrintable (b : UInt8) : Prop := ' '.toUInt8 ≤ b ∧ b < 0x7F

/-- An ASCII byte other than the escape character. -/
def IsPlain (b : UInt8) : Prop := b < 0x80 ∧ b ≠ 0x1B

instance : DecidablePred IsPrintable := fun b => inferInstanceAs (Decidable (_ ≤ b ∧ b < _))

instance : DecidablePred IsPlain := fun b => inferInstanceAs (Decidable (b < _ ∧ b ≠ _))

theorem IsPrintable.isPlain {b : UInt8} (printable : IsPrintable b) : IsPlain b := by
  refine ⟨UInt8.lt_trans printable.2 (by decide), ?_⟩
  rintro rfl
  exact absurd printable (by decide)

theorem IsPrintable.stays {b : UInt8} (printable : IsPrintable b) :
    (!(Rune.ofByte b).isChar '\n') = true := by
  rw [Rune.isChar, Bool.not_eq_true', beq_eq_false_iff_ne]
  intro same
  have bytes := congrArg Rune.toBytes same
  rw [Rune.toBytes_ofByte printable.isPlain.1] at bytes
  obtain rfl : b = '\n'.toUInt8 := List.singleton_inj.mp bytes
  exact absurd printable (by decide)

theorem forall_of_all {P : UInt8 → Prop} [DecidablePred P] {text : Bytes}
    (checked : text.all (fun b => decide (P b)) = true) : ∀ b ∈ text, P b :=
  fun b member => of_decide_eq_true (List.all_eq_true.mp checked b member)

theorem forall_mem_join {P : UInt8 → Prop} {separator : Bytes} {texts : List Bytes}
    (between : ∀ b ∈ separator, P b) (each : ∀ text ∈ texts, ∀ b ∈ text, P b) :
    ∀ b ∈ join separator texts, P b := by
  fun_induction join separator texts with
  | case1 => simp
  | case2 text => exact each text List.mem_cons_self
  | case3 text texts _ ih =>
    obtain ⟨here, later⟩ := List.forall_mem_cons.mp each
    simp only [List.forall_mem_append]
    exact ⟨⟨here, between⟩, ih later⟩

/-- Each of the joined texts stands in the whole. -/
theorem part_of_join {text : Bytes} (separator : Bytes) {texts : List Bytes}
    (member : text ∈ texts) : text <:+: join separator texts := by
  fun_induction join separator texts with
  | case1 => simp at member
  | case2 only =>
    obtain rfl := List.mem_singleton.mp member
    exact ⟨[], [], by simp⟩
  | case3 first texts _ ih =>
    rcases List.mem_cons.mp member with rfl | later
    · exact ⟨[], separator ++ join separator texts, by simp⟩
    · exact (ih later).trans ⟨first ++ separator, [], by simp⟩

end Bytes

open Bytes (IsPrintable IsPlain forall_of_all)

namespace Decimal

theorem isPrintable_of_isDigit {b : UInt8} (decimal : Bytes.isDigit b = true) : IsPrintable b := by
  simp only [Bytes.isDigit, Bool.and_eq_true, decide_eq_true_eq] at decimal
  exact ⟨UInt8.le_trans (by decide) decimal.1, UInt8.lt_of_le_of_lt decimal.2 (by decide)⟩

theorem isPrintable_signed {digits : Nat → Bytes} (each : ∀ n, ∀ b ∈ digits n, IsPrintable b)
    (n : Int) : ∀ b ∈ signed digits n, IsPrintable b := by
  cases n with
  | ofNat n => exact each n
  | negSucc n => exact List.forall_mem_cons.mpr ⟨by decide, each (n + 1)⟩

theorem isPrintable_ofInt64 (n : Int64) : ∀ b ∈ ofInt64 n, IsPrintable b :=
  isPrintable_signed (fun _ _ member => isPrintable_of_isDigit (isDigit_of_mem member)) n.toInt

theorem isPrintable_separate {digits : Bytes} (each : ∀ b ∈ digits, IsPrintable b) :
    ∀ b ∈ separate digits, IsPrintable b := by
  fun_induction separate digits with
  | case1 a b c d rest ih =>
    have comma : IsPrintable ','.toUInt8 := by decide
    simp only [List.forall_mem_cons] at each ih ⊢
    exact ⟨each.1, each.2.1, each.2.2.1, comma, ih each.2.2.2⟩
  | case2 => exact each

theorem isPrintable_grouped (n : Int64) : ∀ b ∈ grouped n, IsPrintable b := by
  apply isPrintable_signed
  intro n b member
  have digits : ∀ b ∈ (ofNat n).reverse, IsPrintable b :=
    fun b member => isPrintable_of_isDigit (isDigit_of_mem (List.mem_reverse.mp member))
  exact isPrintable_separate digits b (List.mem_reverse.mp member)

end Decimal

theorem Timing.isPrintable_text (t : Timing) : ∀ b ∈ t.text, IsPrintable b := by
  have marks : IsPrintable '('.toUInt8 ∧ IsPrintable '/'.toUInt8 ∧ IsPrintable ')'.toUInt8 := by decide
  unfold text
  simp only [List.forall_mem_append, List.forall_mem_singleton]
  exact ⟨⟨⟨⟨⟨Decimal.isPrintable_ofInt64 _, marks.1⟩, Decimal.isPrintable_ofInt64 _⟩, marks.2.1⟩,
    Decimal.isPrintable_ofInt64 _⟩, marks.2.2⟩

namespace Report.Plain

/-! ### Control sequences -/

theorem mayBegin_iff {r : Rune} : controlSequence.mayBegin r = true ↔
    r = .scalar '\u009b' ∨ r = .scalar '\x1b' := by
  simp [controlSequence, Pattern.chain, Pattern.mayBegin, Pattern.canBeEmpty, Pattern.char, Rune.isChar]

/-- The text has no character that a control sequence begins with. -/
structure Inert (text : Bytes) : Prop where
  escape : 0x1B ∉ text
  introducer : .scalar '\u009b' ∉ Rune.ofBytes text

theorem Inert.mayBegin {text : Bytes} (inert : Inert text) :
    ∀ r ∈ Rune.ofBytes text, controlSequence.mayBegin r = false := by
  intro r member
  rw [Bool.eq_false_iff]
  intro begins
  rcases mayBegin_iff.mp begins with rfl | rfl
  · exact inert.introducer member
  · exact inert.escape (Rune.mem_of_mem_ofBytes member _ (by decide))

theorem inert_of_plain {text : Bytes} (plain : ∀ b ∈ text, IsPlain b) : Inert text where
  escape := fun member => (plain _ member).2 rfl
  introducer := by
    intro member
    have lead := (plain 0xC2 (Rune.mem_of_mem_ofBytes member _ (by decide))).1
    revert lead
    decide

theorem isPrintable_blanks (n : Nat) : ∀ b ∈ List.replicate n ' '.toUInt8, IsPrintable b := by
  intro b member
  obtain rfl := List.eq_of_mem_replicate member
  decide

/-- The text without its control sequences. -/
def decolored (text : Bytes) : Bytes := (visible text).flatMap Rune.toBytes

/-- Of the coloured text, the plain text is visible, whatever comes after it. -/
structure Shows (colored plain : Bytes) : Prop where
  visible_append : ∀ rest, visible (colored ++ rest) = Rune.ofBytes plain ++ visible rest
  ofBytes_append : ∀ rest, Rune.ofBytes (plain ++ rest) = Rune.ofBytes plain ++ Rune.ofBytes rest

namespace Shows

variable {colored plain colored' plain' : Bytes}

theorem visible_eq (seen : Shows colored plain) : visible colored = Rune.ofBytes plain := by
  have alone := seen.visible_append []
  rwa [List.append_nil, show visible [] = [] from rfl, List.append_nil] at alone

theorem nil : Shows [] [] := ⟨fun _ => rfl, fun _ => rfl⟩

theorem append (first : Shows colored plain) (second : Shows colored' plain') :
    Shows (colored ++ colored') (plain ++ plain') where
  visible_append := by
    intro rest
    rw [List.append_assoc, first.visible_append, second.visible_append, first.ofBytes_append,
      List.append_assoc]
  ofBytes_append := by
    intro rest
    rw [List.append_assoc, first.ofBytes_append, second.ofBytes_append, first.ofBytes_append,
      List.append_assoc]

theorem of_inert {text : Bytes} (inert : Inert text)
    (whole : ∀ rest, Rune.ofBytes (text ++ rest) = Rune.ofBytes text ++ Rune.ofBytes rest) :
    Shows text text where
  visible_append := by
    intro rest
    unfold visible
    rw [whole, Pattern.deleteFrom_append rfl inert.mayBegin]
  ofBytes_append := whole

theorem of_plain {text : Bytes} (plain : ∀ b ∈ text, IsPlain b) : Shows text text :=
  of_inert (inert_of_plain plain) (Rune.ofBytes_append_of_ascii fun b member => (plain b member).1)

theorem of_printable {text : Bytes} (printable : ∀ b ∈ text, IsPrintable b) : Shows text text :=
  of_plain fun b member => (printable b member).isPlain

/-- A control sequence is not visible. -/
theorem of_sequence {code : Bytes} (filled : Rune.ofBytes code ≠ []) (ascii : ∀ b ∈ code, b < 0x80)
    (fits : ∀ rest, controlSequence.remainders (Rune.ofBytes code ++ rest) = [rest]) :
    Shows code [] where
  visible_append := by
    intro rest
    unfold visible
    rw [Rune.ofBytes_append_of_ascii ascii, Pattern.deleteFrom_hit filled (fits _)]
    rfl
  ofBytes_append := fun _ => rfl

theorem colorOn (level : Level) : Shows (colorOn level) [] := by
  cases level <;> exact of_sequence (by decide) (forall_of_all (by decide)) fun _ => rfl

theorem colorOff : Shows colorOff [] :=
  of_sequence (by decide) (forall_of_all (by decide)) fun _ => rfl

theorem colorize {text : Bytes} (printable : ∀ b ∈ text, IsPrintable b) (color : Bool)
    (level : Level) : Shows (colorize color level text) text := by
  unfold Plain.colorize
  split
  · have whole := ((colorOn level).append (of_printable printable)).append colorOff
    rwa [List.nil_append, List.append_nil] at whole
  · exact of_printable printable

theorem join {α : Type} {f g : α → Bytes} {separator : Bytes} (between : Shows separator separator)
    (each : ∀ x, Shows (f x) (g x)) (xs : List α) :
    Shows (Bytes.join separator (xs.map f)) (Bytes.join separator (xs.map g)) := by
  induction xs with
  | nil => exact nil
  | cons x xs ih =>
    cases xs with
    | nil => exact each x
    | cons y xs => exact ((each x).append between).append ih

theorem flatMap {α : Type} {f g : α → Bytes} {xs : List α} (each : ∀ x ∈ xs, Shows (f x) (g x)) :
    Shows (xs.flatMap f) (xs.flatMap g) := by
  induction xs with
  | nil => exact nil
  | cons x xs ih =>
    obtain ⟨here, later⟩ := List.forall_mem_cons.mp each
    exact here.append (ih later)

/-- Blanks are put before the same visible text. -/
theorem pad (seen : Shows colored plain) (alone : Shows plain plain) (width : Nat) :
    Shows (pad width colored) (pad width plain) := by
  unfold Plain.pad
  rw [seen.visible_eq, alone.visible_eq]
  exact (of_printable (isPrintable_blanks _)).append seen

end Shows

/-! ### Lines -/

/-- Numbers are written with printable characters. -/
def Printable (grouped : Int64 → Bytes) : Prop := ∀ n, ∀ b ∈ grouped n, IsPrintable b

variable {grouped : Int64 → Bytes}

/-- Times and bytes of a line. -/
def counts (grouped : Int64 → Bytes) (parts : Include) (color : Bool) (line : Line) : Bytes :=
  (if parts.timings then timingsText color line.times else []) ++
    if parts.bytes then bytesText grouped color line.bytes else []

/-- What stands before the source text of a line. -/
def margin (grouped : Int64 → Bytes) (parts : Include) (color : Bool) (line : Line) : Bytes :=
  pad annotationWidth (counts grouped parts color line) ++ Bytes.ofString " | "

theorem isPrintable_counts (printable : Printable grouped) (parts : Include) (line : Line) :
    ∀ b ∈ counts grouped parts false line, IsPrintable b := by
  unfold counts
  rw [List.forall_mem_append]
  constructor
  · split
    · unfold timingsText
      split
      · simp
      · refine Bytes.forall_mem_join (forall_of_all (by decide)) fun text member => ?_
        obtain ⟨t, -, rfl⟩ := List.mem_map.mp member
        exact t.isPrintable_text
    · simp
  · split
    · unfold bytesText
      split
      · simp
      · exact List.forall_mem_cons.mpr ⟨by decide, printable line.bytes⟩
    · simp

theorem shows_counts (printable : Printable grouped) (parts : Include) (color : Bool) (line : Line) :
    Shows (counts grouped parts color line) (counts grouped parts false line) := by
  have slash : Shows (Bytes.ofString " / ") (Bytes.ofString " / ") :=
    .of_printable (forall_of_all (by decide))
  have blank : Shows [' '.toUInt8] [' '.toUInt8] := .of_printable (forall_of_all (by decide))
  apply Shows.append
  · split
    · cases line.times with
      | none => exact .nil
      | some times =>
        exact .join slash (fun t => .colorize t.isPrintable_text color t.level) times.values
    · exact .nil
  · split
    · unfold bytesText
      split
      · exact .nil
      · exact blank.append (.colorize (printable line.bytes) color _)
    · exact .nil

theorem shows_padded (printable : Printable grouped) (parts : Include) (color : Bool) (line : Line) :
    Shows (pad annotationWidth (counts grouped parts color line))
      (pad annotationWidth (counts grouped parts false line)) :=
  (shows_counts printable parts color line).pad (.of_printable (isPrintable_counts printable parts line)) _

theorem shows_margin (printable : Printable grouped) (parts : Include) (color : Bool) (line : Line) :
    Shows (margin grouped parts color line) (margin grouped parts false line) :=
  (shows_padded printable parts color line).append (.of_printable (forall_of_all (by decide)))

theorem isPrintable_margin (printable : Printable grouped) (parts : Include) (line : Line) :
    ∀ b ∈ margin grouped parts false line, IsPrintable b := by
  unfold margin pad
  simp only [List.forall_mem_append]
  exact ⟨⟨isPrintable_blanks _, isPrintable_counts printable parts line⟩, forall_of_all (by decide)⟩

theorem length_margin (printable : Printable grouped) (parts : Include) (line : Line) : (margin grouped parts false line).length =
    max annotationWidth (counts grouped parts false line).length + 3 := by
  have printable := isPrintable_counts printable parts line
  have shown : (visible (counts grouped parts false line)).length =
      (counts grouped parts false line).length := by
    rw [(Shows.of_printable printable).visible_eq,
      Rune.ofBytes_of_ascii fun b member => (printable b member).isPlain.1, List.length_map]
  have bar : (Bytes.ofString " | ").length = 3 := by decide
  rw [margin, pad, shown, List.length_append, List.length_append, List.length_replicate, bar]
  omega

/-- The numbers to the left of the source text, with their levels. -/
def numbers (grouped : Int64 → Bytes) (parts : Include) (line : Line) : List (Level × Bytes) :=
  (if parts.timings then (line.times.elim [] Times.values).map fun t => (t.level, t.text) else []) ++
    if parts.bytes && line.bytes != 0 then
      [(Level.ofLength line.bytes, grouped line.bytes)]
    else []

theorem colored_in_counts {parts : Include} {line : Line} {number : Level × Bytes}
    (member : number ∈ numbers grouped parts line) :
    colorOn number.1 ++ number.2 ++ colorOff <:+: counts grouped parts true line := by
  unfold counts
  rcases List.mem_append.mp member with timed | sized
  · split at timed
    · rename_i timings
      obtain ⟨t, within, rfl⟩ := List.mem_map.mp timed
      rw [if_pos timings]
      cases times : line.times with
      | none => simp [times] at within
      | some all =>
        have stands := Bytes.part_of_join (Bytes.ofString " / ") (List.mem_map_of_mem
          (f := fun t : Timing => colorize true t.level t.text) (by simpa [times] using within))
        exact stands.trans ⟨[], _, rfl⟩
    · simp at timed
  · split at sized
    · rename_i shown
      obtain ⟨bytes, filled⟩ := Bool.and_eq_true_iff.mp shown
      have written : bytesText grouped true line.bytes = ' '.toUInt8 ::
          colorize true (Level.ofLength line.bytes) (grouped line.bytes) :=
        if_neg (by simpa using filled)
      obtain rfl := List.mem_singleton.mp sized
      rw [if_pos bytes, written]
      exact ⟨_ ++ [' '.toUInt8], [], by rw [List.append_nil, List.append_assoc]; rfl⟩
    · simp at sized

theorem ofBytes_newline (text rest : Bytes) : Rune.ofBytes (text ++ '\n'.toUInt8 :: rest) =
    Rune.ofBytes text ++ (.scalar '\n' :: Rune.ofBytes rest) := by
  have ascii : '\n'.toUInt8 < 0x80 := by decide
  rw [Rune.ofBytes_append_ascii text ascii, Rune.ofBytes_char ascii rfl]

theorem ofBytes_newline_last (text : Bytes) :
    Rune.ofBytes (text ++ ['\n'.toUInt8]) = Rune.ofBytes text ++ [.scalar '\n'] :=
  ofBytes_newline text []

/-- The end of the line keeps the source text apart from what comes after it. -/
theorem shows_source {text : Bytes} (inert : Inert text) :
    Shows (text ++ ['\n'.toUInt8]) (text ++ ['\n'.toUInt8]) := by
  have other : (0x1B : UInt8) ≠ '\n'.toUInt8 := by decide
  apply Shows.of_inert
  · constructor
    · simpa [other] using inert.escape
    · rw [ofBytes_newline_last]
      simpa using inert.introducer
  · intro rest
    rw [List.append_assoc, List.singleton_append, ofBytes_newline, ofBytes_newline_last,
      List.append_assoc, List.singleton_append]

theorem lineText_eq (parts : Include) (color : Bool) (line : Line) :
    lineText grouped parts color line = pad annotationWidth (counts grouped parts color line) ++
      if parts.text then Bytes.ofString " | " ++ line.text else [] := rfl

theorem lineText_of_text {parts : Include} (text : parts.text = true) (color : Bool) (line : Line) :
    lineText grouped parts color line = margin grouped parts color line ++ line.text := by
  rw [lineText_eq, if_pos text, margin, List.append_assoc]

theorem shows_line (printable : Printable grouped) (parts : Include) (color : Bool) {line : Line} (inert : Inert line.text) :
    Shows (lineText grouped parts color line ++ ['\n'.toUInt8])
      (lineText grouped parts false line ++ ['\n'.toUInt8]) := by
  by_cases text : parts.text = true
  · rw [lineText_of_text text, lineText_of_text text, List.append_assoc, List.append_assoc]
    exact (shows_margin printable parts color line).append (shows_source inert)
  · rw [lineText_eq, lineText_eq, if_neg text, List.append_nil, List.append_nil]
    exact (shows_padded printable parts color line).append (.of_plain (forall_of_all (by decide)))

/-! ### Reports -/

def linesText (grouped : Int64 → Bytes) (parts : Include) (color : Bool) (lines : List Line) :
    Bytes :=
  lines.flatMap fun line => lineText grouped parts color line ++ ['\n'.toUInt8]

theorem shows_linesText (printable : Printable grouped) (parts : Include) (color : Bool) {lines : List Line}
    (inert : ∀ line ∈ lines, Inert line.text) :
    Shows (linesText grouped parts color lines) (linesText grouped parts false lines) :=
  .flatMap fun line member => shows_line printable parts color (inert line member)

theorem isPlain_totalsText (printable : Printable grouped) (totals : Totals) : ∀ b ∈ totalsText grouped totals, IsPlain b := by
  have time (t : Timing) : ∀ b ∈ t.text, IsPlain b :=
    fun b member => (t.isPrintable_text b member).isPlain
  have number (n : Int64) : ∀ b ∈ grouped n, IsPlain b :=
    fun b member => (printable n b member).isPlain
  have dash : ∀ b ∈ Bytes.ofString " - ", IsPlain b := forall_of_all (by decide)
  unfold totalsText
  simp only [List.forall_mem_append]
  refine ⟨⟨⟨⟨⟨⟨⟨⟨?_, ?_⟩, ?_⟩, number _⟩, ?_⟩, number _⟩, ?_⟩, number _⟩, ?_⟩
  case refine_2 =>
    split
    · simp only [List.forall_mem_append]
      exact ⟨⟨time _, dash⟩, time _⟩
    · exact time _
  all_goals exact forall_of_all (by decide)

theorem shows_render (printable : Printable grouped) (parts : Include) (color : Bool) {lines : List Line}
    (inert : ∀ line ∈ lines, Inert line.text) (totals : Totals) :
    Shows (render grouped parts color lines totals) (render grouped parts false lines totals) := by
  apply Shows.append
  · split
    · exact shows_linesText printable parts color inert
    · exact .nil
  · split
    · exact .of_plain (isPlain_totalsText printable totals)
    · exact .nil

/-- How many characters a terminal shows on the last line of the text. -/
def column (text : Bytes) : Nat :=
  ((visible text).reverse.takeWhile fun r => !r.isChar '\n').length

theorem Shows.column_append {before before' colored plain : Bytes} (first : Shows before before')
    (fresh : before' = [] ∨ ∃ text, before' = text ++ ['\n'.toUInt8])
    (second : Shows colored plain) (printable : ∀ b ∈ plain, IsPrintable b) :
    column (before ++ colored) = plain.length := by
  have onLine : ∀ r ∈ (plain.map Rune.ofByte).reverse, (!r.isChar '\n') = true := by
    intro r member
    obtain ⟨b, within, rfl⟩ := List.mem_map.mp (List.mem_reverse.mp member)
    exact (printable b within).stays
  have stop : (Rune.ofBytes before').reverse.takeWhile (fun r => !r.isChar '\n') = [] := by
    rcases fresh with rfl | ⟨text, rfl⟩
    · rfl
    · rw [ofBytes_newline_last, List.reverse_append]
      rfl
  have ascii : ∀ b ∈ plain, b < 0x80 := fun b member => (printable b member).isPlain.1
  unfold column
  rw [first.visible_append, second.visible_eq, Rune.ofBytes_of_ascii ascii, List.reverse_append,
    List.takeWhile_append_of_pos onLine, stop, List.append_nil, List.length_reverse,
    List.length_map]

theorem fresh_linesText (parts : Include) (color : Bool) (lines : List Line) :
    linesText grouped parts color lines = [] ∨
      ∃ text, linesText grouped parts color lines = text ++ ['\n'.toUInt8] := by
  rcases List.eq_nil_or_concat lines with rfl | ⟨earlier, line, rfl⟩
  · exact .inl rfl
  · refine .inr ⟨linesText grouped parts color earlier ++ lineText grouped parts color line, ?_⟩
    simp [linesText]

theorem render_around {parts : Include} (included : parts.lines = true) (color : Bool)
    (earlier later : List Line) (line : Line) (totals : Totals) :
    ∃ rest, render grouped parts color (earlier ++ line :: later) totals =
      linesText grouped parts color earlier ++ (lineText grouped parts color line ++ '\n'.toUInt8 :: rest) := by
  refine ⟨linesText grouped parts color later ++ if parts.totals then totalsText grouped totals else [], ?_⟩
  simp [render, included, linesText]

/-- What a report has before the source text of a line. -/
def front (grouped : Int64 → Bytes) (parts : Include) (color : Bool) (earlier : List Line)
    (line : Line) : Bytes :=
  linesText grouped parts color earlier ++ margin grouped parts color line

theorem render_eq_front {parts : Include} (text : parts.text = true) (color : Bool)
    (earlier later : List Line) (line : Line) (totals : Totals) :
    ∃ rest, render grouped parts color (earlier ++ line :: later) totals =
      front grouped parts color earlier line ++ (line.text ++ '\n'.toUInt8 :: rest) := by
  have included : parts.lines = true := by simp [Include.lines, text]
  obtain ⟨rest, whole⟩ := render_around included color earlier later line totals
  refine ⟨rest, ?_⟩
  rw [whole, lineText_of_text text, front, List.append_assoc, List.append_assoc]

theorem column_front (printable : Printable grouped) (parts : Include) (color : Bool) {earlier : List Line}
    (inert : ∀ line ∈ earlier, Inert line.text) (line : Line) :
    column (front grouped parts color earlier line) =
      max annotationWidth (counts grouped parts false line).length + 3 := by
  have ahead := shows_linesText printable parts color inert
  rw [front, ahead.column_append (fresh_linesText parts false earlier)
    (shows_margin printable parts color line) (isPrintable_margin printable parts line), length_margin printable]

theorem colored_in_render {parts : Include} {lines : List Line} {line : Line} (member : line ∈ lines)
    {number : Level × Bytes} (shown : number ∈ numbers grouped parts line) (totals : Totals) :
    colorOn number.1 ++ number.2 ++ colorOff <:+: render grouped parts true lines totals := by
  have included : parts.lines = true := by
    cases lines : parts.lines with
    | true => rfl
    | false => simp_all [Include.lines, numbers]
  obtain ⟨earlier, later, rfl⟩ := List.append_of_mem member
  obtain ⟨rest, whole⟩ := render_around included true earlier later line totals
  have inLine : counts grouped parts true line <:+: lineText grouped parts true line := ⟨_, _, rfl⟩
  have inReport : lineText grouped parts true line <:+: render grouped parts true (earlier ++ line :: later) totals :=
    ⟨_, _, by rw [whole, List.append_assoc]⟩
  exact ((colored_in_counts shown).trans inLine).trans inReport

/-- Colour changes nothing but the colours. Every number has the colour of its level; without the
control sequences the report is the plain one; and in both a source text starts in the same
column. -/
theorem render_decolored (printable : Printable grouped) {parts : Include} {lines : List Line}
    (inert : ∀ line ∈ lines, Inert line.text) (totals : Totals) :
    (∀ line ∈ lines, ∀ number ∈ numbers grouped parts line,
      colorOn number.1 ++ number.2 ++ colorOff <:+: render grouped parts true lines totals) ∧
    decolored (render grouped parts true lines totals) = render grouped parts false lines totals ∧
    ∀ earlier line later, lines = earlier ++ line :: later → parts.text = true → ∀ color,
      (∃ rest, render grouped parts color lines totals =
        front grouped parts color earlier line ++ (line.text ++ '\n'.toUInt8 :: rest)) ∧
      column (front grouped parts color earlier line) =
        max annotationWidth (counts grouped parts false line).length + 3 := by
  refine ⟨fun line member number shown => colored_in_render member shown totals, ?_, ?_⟩
  · rw [decolored, (shows_render printable parts true inert totals).visible_eq, Rune.flatMap_toBytes_ofBytes]
  · rintro earlier line later rfl text color
    refine ⟨render_eq_front text color earlier later line totals, ?_⟩
    exact column_front printable parts color (fun line member => inert line (List.mem_append_left _ member)) line

theorem render_decolored_wide :
    let start := Line.plain ⟨Bytes.ofString "start: ; é" ++ [0x9B], 0, false, none⟩
    let wide := Line.plain ⟨Bytes.ofString " divs (a0),d1", -1234567, false,
      some ⟨[⟨158, 2, 0⟩, ⟨-9223372036854775808, 2, -1⟩], [], none⟩⟩
    let totals : Totals := ⟨true, ⟨-1, 0, 0⟩, ⟨158, 2, 0⟩, ⟨1000, 999, 1⟩⟩
    (Inert start.text ∧ Inert wide.text) ∧
      decolored (render Decimal.grouped .all true [start, wide] totals) =
        render Decimal.grouped .all false [start, wide] totals ∧
      column (front Decimal.grouped .all true [] start) = 33 ∧
      column (front Decimal.grouped .all true [start] wide) = 51 := by
  intro start wide totals
  have inert : Inert start.text ∧ Inert wide.text :=
    ⟨⟨by decide, by decide⟩, ⟨by decide, by decide⟩⟩
  obtain ⟨-, plain, columns⟩ := @render_decolored _ Decimal.isPrintable_grouped .all [start, wide]
    (by simpa using inert) totals
  refine ⟨inert, plain, (columns [] start [wide] rfl rfl true).2.trans (by decide), ?_⟩
  exact (columns [start] wide [] rfl rfl true).2.trans (by decide)

end Report.Plain

end Asm68k
