import Asm68k.Json.Form
import Asm68k.Proofs.Decimal

/-!
Arrays of integers in JSON. A text is read piece by piece: blanks are passed over, a bracket, a comma or
an item becomes a token, and the token moves the nesting on. So the text of an array, with any blanks
around its pieces, gives the form of the array: `Form.ofText?_array`.
-/

namespace Asm68k.Json

/-! ### Pieces and blanks -/

/-- The text is made of the pieces in order, with blanks before, between and after them. -/
inductive Spaced : List Bytes → Bytes → Prop where
  | nil {gap : Bytes} : (∀ b ∈ gap, isBlank b = true) → Spaced [] gap
  | cons {gap piece text : Bytes} {pieces : List Bytes} : (∀ b ∈ gap, isBlank b = true) →
    Spaced pieces text → Spaced (piece :: pieces) (gap ++ (piece ++ text))

/-- A bracket of an array, or a comma. -/
inductive IsMark : UInt8 → Token → Prop where
  | opening : IsMark '['.toUInt8 .openArray
  | closing : IsMark ']'.toUInt8 .closeArray
  | comma : IsMark ','.toUInt8 .comma

/-- The bytes that a number can begin with. -/
def beginsNumber (b : UInt8) : Bool := Bytes.isDigit b || b == '-'.toUInt8

/-- The bytes that an integer would take with it. -/
def continuesNumber (b : UInt8) : Bool :=
  Bytes.isDigit b || b == '.'.toUInt8 || b == 'e'.toUInt8 || b == 'E'.toUInt8

/-- The text is at its end, or goes on with a byte that is no part of a number. -/
def Ended (rest : Bytes) : Prop := ∀ b ∈ rest.head?, continuesNumber b = false

theorem not_number_of_isBlank {b : UInt8} (blank : isBlank b = true) :
    beginsNumber b = false ∧ continuesNumber b = false := by
  simp only [isBlank, Bool.or_eq_true, beq_iff_eq] at blank
  rcases blank with ((rfl | rfl) | rfl) | rfl <;> decide

theorem Spaced.ended {mark : UInt8} {token : Token} {pieces : List Bytes} {text : Bytes}
    (spaced : Spaced ([mark] :: pieces) text) (isMark : IsMark mark token) : Ended text := by
  intro b first
  cases spaced with
  | @cons gap _ _ _ blank _ =>
    cases gap with
    | nil =>
      cases first
      cases isMark <;> decide
    | cons c gap =>
      cases first
      exact (not_number_of_isBlank (blank b List.mem_cons_self)).2

/-! ### Numbers -/

theorem whole?_ofNat (n : Nat) {rest : Bytes} (ended : Ended rest) :
    whole? (Decimal.ofNat n ++ rest) = some (Decimal.ofNat n, rest) := by
  -- Only zero is written with a zero in front, which ends the number at once.
  obtain rfl | positive := Nat.eq_zero_or_pos n
  · rfl
  · obtain ⟨b, digits, written, -, nonzero, -⟩ := Decimal.exists_first positive
    have other : b ≠ '0'.toUInt8 := by
      rintro rfl
      exact absurd nonzero (by decide)
    have inside : ∀ b ∈ Decimal.ofNat n, Bytes.isDigit b = true := fun b => Decimal.isDigit_of_mem
    have stop : ∀ b ∈ rest.head?, Bytes.isDigit b = false := by
      intro b first
      have outside := ended b first
      simp only [continuesNumber, Bool.or_eq_false_iff] at outside
      exact outside.1.1.1
    obtain ⟨taken, left⟩ := Bytes.takeWhile_ended inside stop
    have found : digits? (Decimal.ofNat n ++ rest) = some (Decimal.ofNat n, rest) := by
      unfold digits?
      rw [taken, left, written]
      rfl
    rw [← found, written, List.cons_append, whole?, if_neg other]

theorem fraction?_ended {rest : Bytes} (ended : Ended rest) : fraction? rest = some ([], rest) := by
  cases rest with
  | nil => rfl
  | cons b rest =>
    have outside := ended b rfl
    simp only [continuesNumber, Bool.or_eq_false_iff, beq_eq_false_iff_ne] at outside
    rw [fraction?, if_neg outside.1.1.2]

theorem exponent?_ended {rest : Bytes} (ended : Ended rest) : exponent? rest = some ([], rest) := by
  cases rest with
  | nil => rfl
  | cons b rest =>
    have outside := ended b rfl
    simp only [continuesNumber, Bool.or_eq_false_iff, beq_eq_false_iff_ne] at outside
    rw [exponent?, if_neg (not_or.mpr ⟨outside.1.2, outside.2⟩)]

theorem sign_ofInt (n : Int) (rest : Bytes) : ∃ minus,
    sign ['-'] (Decimal.ofInt n ++ rest) = (minus, Decimal.ofNat n.natAbs ++ rest) ∧
      Decimal.ofInt n = minus ++ Decimal.ofNat n.natAbs := by
  cases n with
  | ofNat m =>
    obtain ⟨b, digits, written, decimal⟩ := Decimal.exists_digit m
    have other : b ≠ '-'.toUInt8 := by
      rintro rfl
      cases decimal
    refine ⟨[], ?_, rfl⟩
    rw [Decimal.ofInt, Decimal.signed, Int.natAbs_ofNat', written, List.cons_append, sign]
    exact if_neg (by simpa using other)
  | negSucc m => exact ⟨['-'.toUInt8], rfl, rfl⟩

theorem number?_ofInt (n : Int) {rest : Bytes} (ended : Ended rest) :
    number? (Decimal.ofInt n ++ rest) = some (Decimal.ofInt n) := by
  obtain ⟨minus, signed, written⟩ := sign_ofInt n rest
  rw [number?, signed]
  simp [whole?_ofNat _ ended, fraction?_ended ended, exponent?_ended ended, written]

theorem exists_first_ofInt (n : Int) :
    ∃ b more, Decimal.ofInt n = b :: more ∧ beginsNumber b = true := by
  cases n with
  | ofNat m =>
    obtain ⟨b, digits, written, decimal⟩ := Decimal.exists_digit m
    exact ⟨b, digits, written, by rw [beginsNumber, decimal, Bool.true_or]⟩
  | negSucc m => exact ⟨_, _, rfl, rfl⟩

/-! ### Tokens -/

/-- Before the rest of the text, the piece is read as one token. -/
def ReadsAs (piece : Bytes) (token : Token) (rest : Bytes) : Prop :=
  ∃ b more, piece = b :: more ∧ isBlank b = false ∧
    tokenAt? b (more ++ rest) = some (token, more.length)

theorem IsMark.readsAs {mark : UInt8} {token : Token} (isMark : IsMark mark token) (rest : Bytes) :
    ReadsAs [mark] token rest := by
  refine ⟨mark, [], rfl, ?_, ?_⟩ <;> cases isMark <;> rfl

theorem readsAs_null (rest : Bytes) : ReadsAs (Bytes.ofString "null") .null rest :=
  ⟨'n'.toUInt8, Bytes.ofString "ull", rfl, rfl, rfl⟩

theorem tokenAt?_number {b : UInt8} (begins : beginsNumber b = true) (rest : Bytes) :
    tokenAt? b rest =
      (number? (b :: rest)).map fun literal => (.number literal, literal.length - 1) := by
  have different (c : UInt8) (other : beginsNumber c = false) : b ≠ c := by
    rintro rfl
    exact Bool.false_ne_true (other.symm.trans begins)
  have apart (word : Bytes) (other : word.head?.map beginsNumber = some false) :
      ¬word.isPrefixOf (b :: rest) = true := by
    obtain ⟨c, first, outside⟩ := Option.map_eq_some_iff.mp other
    obtain ⟨letters, rfl⟩ := List.head?_eq_some_iff.mp first
    rw [List.isPrefixOf_iff_prefix, List.cons_prefix_cons]
    exact fun same => different c outside same.1.symm
  rw [tokenAt?, if_neg (different _ rfl), if_neg (different _ rfl), if_neg (different _ rfl),
    if_neg (different _ rfl), if_neg (different _ rfl), if_neg (different _ rfl),
    if_neg (different _ rfl), if_neg (apart _ rfl), if_neg (apart _ rfl), if_neg (apart _ rfl)]

theorem readsAs_ofInt (n : Int) {rest : Bytes} (ended : Ended rest) :
    ReadsAs (Decimal.ofInt n) (.number (Decimal.ofInt n)) rest := by
  have read := number?_ofInt n ended
  obtain ⟨b, more, written, begins⟩ := exists_first_ofInt n
  rw [written] at read ⊢
  refine ⟨b, more, rfl, ?_, ?_⟩
  · rw [← Bool.not_eq_true]
    intro blank
    rw [(not_number_of_isBlank blank).1] at begins
    cases begins
  · rw [tokenAt?_number begins, ← List.cons_append, read]
    rfl

theorem tokensFrom?_eq (skip : Nat) (text : Bytes) :
    tokensFrom? skip text = tokensFrom? 0 (text.drop skip) := by
  induction text generalizing skip with
  | nil => rw [List.drop_nil, tokensFrom?, tokensFrom?]
  | cons b text ih =>
    cases skip with
    | zero => rfl
    | succ skip => rw [tokensFrom?, List.drop_succ_cons, ih]

theorem tokensFrom?_blanks {gap : Bytes} (blank : ∀ b ∈ gap, isBlank b = true) (rest : Bytes) :
    tokensFrom? 0 (gap ++ rest) = tokensFrom? 0 rest := by
  induction gap with
  | nil => rfl
  | cons b gap ih =>
    obtain ⟨here, later⟩ := List.forall_mem_cons.mp blank
    rw [List.cons_append, tokensFrom?, if_pos here, ih later]

theorem tokensFrom?_piece {piece rest : Bytes} {token : Token} (reads : ReadsAs piece token rest) :
    tokensFrom? 0 (piece ++ rest) = (tokensFrom? 0 rest).map (token :: ·) := by
  obtain ⟨b, more, rfl, visible, found⟩ := reads
  have skipped : tokensFrom? more.length (more ++ rest) = tokensFrom? 0 rest := by
    rw [tokensFrom?_eq, List.drop_left]
  rw [List.cons_append, tokensFrom?, visible, if_neg Bool.false_ne_true, found]
  show (tokensFrom? more.length (more ++ rest)).bind (fun tokens => some (token :: tokens)) = _
  rw [skipped, Option.map_eq_bind]
  rfl

/-! ### Steps -/

namespace Nesting

/-- The nesting after all tokens of a text. -/
def read (nesting : Nesting) (text : Bytes) : Option Nesting := do
  nesting.steps (← tokensFrom? 0 text)

theorem read_blanks (nesting : Nesting) {gap : Bytes} (blank : ∀ b ∈ gap, isBlank b = true) :
    nesting.read gap = some nesting := by
  rw [← List.append_nil gap, read, tokensFrom?_blanks blank]
  rfl

theorem read_piece {nesting next : Nesting} {gap piece rest : Bytes} {token : Token}
    (blank : ∀ b ∈ gap, isBlank b = true) (reads : ReadsAs piece token rest)
    (stepped : nesting.step token = some next) :
    nesting.read (gap ++ (piece ++ rest)) = next.read rest := by
  rw [read, tokensFrom?_blanks blank, tokensFrom?_piece reads, read]
  cases tokensFrom? 0 rest with
  | none => rfl
  | some tokens =>
    show nesting.steps (token :: tokens) = next.steps tokens
    rw [steps, stepped]
    rfl

end Nesting

theorem Form.ofText?_eq (text : Bytes) : Form.ofText? text =
    (Nesting.initial.read text).bind fun nesting =>
      if nesting.frames.isEmpty && nesting.expected == .more then some nesting.result else none := by
  rw [Nesting.read, Option.bind_eq_bind, Option.bind_assoc]
  rfl

/-! ### Arrays of integers -/

/-- An integer as an item of an array; null stands where there is none. -/
def itemText : Option Int → Bytes
  | none => Bytes.ofString "null"
  | some n => Decimal.ofInt n

def itemToken : Option Int → Token
  | none => .null
  | some n => .number (Decimal.ofInt n)

def itemForm : Option Int → Form
  | none => .null
  | some n => .number (Decimal.ofInt n)

/-- The pieces of an array behind its first item. -/
def laterPieces : List (Option Int) → List Bytes
  | [] => [[']'.toUInt8]]
  | item :: items => [','.toUInt8] :: itemText item :: laterPieces items

def arrayPieces : List (Option Int) → List Bytes
  | [] => [['['.toUInt8], [']'.toUInt8]]
  | item :: items => ['['.toUInt8] :: itemText item :: laterPieces items

theorem Spaced.ended_later {items : List (Option Int)} {text : Bytes}
    (spaced : Spaced (laterPieces items) text) : Ended text := by
  cases items with
  | nil => exact spaced.ended .closing
  | cons => exact spaced.ended .comma

theorem readsAs_item {items : List (Option Int)} {rest : Bytes} (item : Option Int)
    (later : Spaced (laterPieces items) rest) : ReadsAs (itemText item) (itemToken item) rest := by
  cases item with
  | none => exact readsAs_null rest
  | some n => exact readsAs_ofInt n later.ended_later

namespace Nesting

theorem step_item {nesting : Nesting} (item : Option Int)
    (expected : nesting.expected = .value ∨ nesting.expected = .itemOrClose) :
    nesting.step (itemToken item) = some (complete (itemForm item) nesting.frames) := by
  obtain ⟨frames, expected', result⟩ := nesting
  obtain rfl | rfl := expected <;> cases item <;> rfl

/-- The array that is still open takes the items in, and its bracket completes it. -/
theorem read_later {items : List (Option Int)} {text : Bytes}
    (spaced : Spaced (laterPieces items) text) (before : List Form) (frames : List Frame) :
    read ⟨.array before :: frames, .more, .null⟩ text =
      some (complete (.array (before.reverse ++ items.map itemForm)) frames) := by
  induction items generalizing text before with
  | nil =>
    obtain _ | ⟨blank, after | _⟩ := spaced
    rw [read_piece blank (IsMark.closing.readsAs _) rfl, read_blanks _ after, List.map_nil,
      List.append_nil]
  | cons item items ih =>
    obtain _ | ⟨blank, _ | ⟨between, later⟩⟩ := spaced
    rw [read_piece blank (IsMark.comma.readsAs _) rfl,
      read_piece between (readsAs_item item later) (step_item item (.inl rfl))]
    -- The item is now the last one of the open array, which holds them in reverse order.
    refine (ih later (itemForm item :: before)).trans ?_
    rw [List.reverse_cons, List.append_assoc, List.singleton_append, List.map_cons]

end Nesting

/-- An array of integers and nulls is read with any blanks around its pieces. -/
theorem Form.ofText?_array {items : List (Option Int)} {text : Bytes}
    (spaced : Spaced (arrayPieces items) text) :
    Form.ofText? text = some (.array (items.map itemForm)) := by
  have read : Nesting.initial.read text = some ⟨[], .more, .array (items.map itemForm)⟩ := by
    cases items with
    | nil =>
      obtain _ | ⟨blank, _ | ⟨between, after | _⟩⟩ := spaced
      rw [Nesting.read_piece blank (IsMark.opening.readsAs _) rfl,
        Nesting.read_piece between (IsMark.closing.readsAs _) rfl, Nesting.read_blanks _ after]
      rfl
    | cons item items =>
      obtain _ | ⟨blank, _ | ⟨between, later⟩⟩ := spaced
      rw [Nesting.read_piece blank (IsMark.opening.readsAs _) rfl,
        Nesting.read_piece between (readsAs_item item later) (Nesting.step_item item (.inr rfl))]
      exact Nesting.read_later later [itemForm item] []
  rw [Form.ofText?_eq, read]
  rfl

end Asm68k.Json
