import Mathlib.Data.List.Forall2
import Asm68k.Proofs.Expression.Grammar
import Asm68k.Proofs.Expression.Rendering

/-!
Texts of expressions. A text compiles exactly when it spells a sequence of items that the grammar
derives and whose symbols have values, and what compiles runs to a value or to a division by zero:
`compile_text`.
-/

namespace Asm68k.Expression

/-! ### Spelling -/

inductive Spelled : Item → Bytes → Prop
  | literal {v text} (literal : Literal v text) : Spelled (.value v) text
  | symbol {name} (isName : IsName name) : Spelled (.symbol name) name
  | unary (op : UnaryOp) : Spelled (.operator (.unary op)) [op.sign]
  | binary {op sign} (member : sign ∈ BinaryOp.signs op) : Spelled (.operator (.binary op)) sign
  | opening : Spelled .opening ['('.toUInt8]
  | closing : Spelled .closing [')'.toUInt8]

/-- The text ends as numbers and names do. -/
def EndsName (text : Bytes) : Prop := ∃ b ∈ text.getLast?, Item.isNameByte b = true

/-- The text is the items in order, with blanks between and around them. No byte of a name follows
directly on a number or a name. -/
inductive Spells : List Item → Bytes → Prop
  | nil {gap} (blank : Gap gap) : Spells [] gap
  | cons {gap item text items rest} (blank : Gap gap) (spelled : Spelled item text)
      (apart : EndsName text → Item.Ended rest) (others : Spells items rest) :
    Spells (item :: items) (gap ++ (text ++ rest))

theorem Spells.gap {items : List Item} {text gap : Bytes} (spells : Spells items text)
    (blank : Gap gap) : Spells items (gap ++ text) := by
  have joined {gap' : Bytes} (blank' : Gap gap') : Gap (gap ++ gap') := by
    intro b member
    rcases List.mem_append.mp member with first | second
    · exact blank b first
    · exact blank' b second
  cases spells with
  | nil blank' => exact .nil (joined blank')
  | cons blank' spelled apart others =>
    rw [← List.append_assoc]
    exact .cons (joined blank') spelled apart others

namespace Item

/-! ### Reading what is spelled -/

/-- A value precedes the item in every expression. -/
def followsValue : Item → Bool
  | .operator (.binary _) | .closing => true
  | .value _ | .symbol _ | .operator (.unary _) | .opening | .bad _ => false

def Alternates : Bool → List Item → Prop
  | _, [] => True
  | afterValue, item :: items => item.followsValue = afterValue ∧ Alternates item.endsValue items

theorem alternates_of_derives {category : Category} {items : List Item}
    (derives : Derives category items) {rest : List Item} (after : Alternates true rest) :
    Alternates false (items ++ rest) := by
  induction derives generalizing rest with
  | value | symbol => exact ⟨rfl, after⟩
  | group inner ih =>
    rw [List.append_assoc]
    exact ⟨rfl, ih ⟨rfl, after⟩⟩
  | plain inner ih | single inner ih => exact ih after
  | signed op inner ih => exact ⟨rfl, ih after⟩
  | joined op before following ihBefore ihAfter =>
    rw [List.append_assoc]
    exact ihBefore ⟨rfl, ihAfter after⟩

theorem readFrom_spelled {item : Item} {text rest : Bytes} (spelled : Spelled item text)
    (ended : item.endsValue = true → Ended rest) :
    readFrom item.followsValue 0 (text ++ rest) = item :: readFrom item.endsValue 0 rest := by
  cases spelled with
  | literal literal => exact readFrom_literal literal (ended rfl)
  | symbol isName => exact readFrom_symbol isName (ended rfl)
  | unary op => exact readFrom_unary op rest
  | binary member => exact (signs_cases member rest).2
  | opening | closing => rfl

-- What may follow a value begins with a blank, a sign or a parenthesis.
theorem ended_of_spells {items : List Item} {text : Bytes} (spells : Spells items text)
    (alternates : Alternates true items) : Ended text := by
  cases spells with
  | @nil gap blank =>
    have nothing : Ended [] := fun b next => nomatch next
    simpa using nothing.gap blank
  | cons blank spelled apart others =>
    apply Ended.gap blank
    cases spelled with
    | binary member => exact (signs_cases member _).1
    | closing => exact fun b next => Option.some.inj next ▸ by decide
    | literal | symbol | unary | opening => cases alternates.1

theorem readFrom_spells {items : List Item} {text : Bytes} (spells : Spells items text)
    {afterValue : Bool} (alternates : Alternates afterValue items) :
    readFrom afterValue 0 text = items := by
  induction spells generalizing afterValue with
  | @nil gap blank =>
    have read := readFrom_gap afterValue blank []
    rw [List.append_nil] at read
    exact read
  | @cons gap item text items rest blank spelled apart others ih =>
    obtain ⟨rfl, following⟩ := alternates
    rw [readFrom_gap _ blank, readFrom_spelled spelled, ih following]
    intro complete
    rw [complete] at following
    exact ended_of_spells others following

/-! ### What is read is spelled -/

theorem readFrom_drop (afterValue : Bool) (skip : Nat) (text : Bytes) :
    readFrom afterValue skip text = readFrom afterValue 0 (text.drop skip) := by
  induction text generalizing skip with
  | nil => cases skip <;> rfl
  | cons b rest ih =>
    cases skip with
    | zero => rfl
    | succ skip => exact ih skip

theorem digit_of_isDigitOf {base : Nat} (small : base ≤ 16) {b : UInt8}
    (h : isDigitOf base b = true) : Digit b (digitValue b) ∧ digitValue b < base := by
  have ⟨alphanumeric, below⟩ := Bool.and_eq_true_iff.mp h
  have below : digitValue b < base := of_decide_eq_true below
  have checked := Bytes.forall_byte
    (p := fun b => !isDigitOf 16 b || decide (Digit b (digitValue b))) (by decide +kernel) b
  have wide : isDigitOf 16 b = true := by
    rw [isDigitOf, alphanumeric, Bool.true_and]
    exact decide_eq_true (by omega)
  rw [wide] at checked
  exact ⟨of_decide_eq_true checked, below⟩

theorem take_length_takeWhile (p : UInt8 → Bool) (text : Bytes) :
    text.take (text.takeWhile p).length = text.takeWhile p ∧
      text.drop (text.takeWhile p).length = text.dropWhile p := by
  have whole : text.takeWhile p ++ text.dropWhile p = text := List.takeWhile_append_dropWhile
  generalize text.takeWhile p = front at *
  generalize text.dropWhile p = back at *
  subst whole
  exact ⟨List.take_left, List.drop_left⟩

theorem number_ok {mark text : Bytes} {base length : Nat} {v : Int64} (small : base ≤ 16)
    (h : number mark base text = .ok (v, length)) :
    ∃ n : UInt64, v = n.toInt64 ∧ Numeral base (text.take length) n.toNat ∧
      Ended (text.drop length) := by
  have ⟨taken, left⟩ := take_length_takeWhile (isDigitOf base) text
  have inside : ∀ b ∈ text.takeWhile (isDigitOf base), isDigitOf base b = true := by
    have all := List.all_takeWhile (p := isDigitOf base) (l := text)
    exact List.all_eq_true.mp all
  unfold number at h
  dsimp only at h
  split at h
  · cases h
  rename_i nonempty
  split at h
  · cases h
  rename_i follows
  split at h
  · rename_i fits
    cases h
    refine ⟨_, rfl, ?_, ?_⟩
    · have spelled : List.Forall₂ Digit (text.takeWhile (isDigitOf base))
          ((text.takeWhile (isDigitOf base)).map digitValue) := by
        rw [List.forall₂_map_right_iff, List.forall₂_same]
        exact fun b member => (digit_of_isDigitOf small (inside b member)).1
      rw [taken, UInt64.toNat_ofNat', Nat.mod_eq_of_lt fits, foldl_digits spelled]
      refine ⟨_, ?_, spelled, ?_, rfl⟩
      · simpa using nonempty
      · intro d member
        obtain ⟨b, digit, rfl⟩ := List.mem_map.mp member
        exact (digit_of_isDigitOf small (inside b digit)).2
    · rw [left]
      intro b next
      rw [Option.mem_def.mp next] at follows
      simpa using follows
  · cases h

theorem characters_split {mark : UInt8} {text : Bytes} {result : Int64 × Nat}
    (h : characters mark text = .ok result) :
    ∃ bytes after, text = bytes ++ mark :: after ∧ mark ∉ bytes ∧
      1 ≤ bytes.length ∧ bytes.length ≤ 4 := by
  unfold characters at h
  cases found : text.cut? mark with
  | none =>
    rw [found] at h
    cases h
  | some parts =>
    obtain ⟨bytes, after⟩ := parts
    obtain ⟨whole, inner⟩ := Bytes.cut?_eq_some found
    rw [found] at h
    dsimp only at h
    split at h
    · rename_i short
      simp only [Bool.and_eq_true, decide_eq_true_eq] at short
      exact ⟨bytes, after, whole, inner, short⟩
    · cases h

theorem characters_ok {mark : UInt8} {text : Bytes} {length : Nat} {v : Int64}
    (quote : mark = '\''.toUInt8 ∨ mark = '"'.toUInt8)
    (h : characters mark text = .ok (v, length)) :
    Literal v (mark :: text.take (length + 1)) ∧
      (mark :: text.take (length + 1)).getLast? = some mark := by
  obtain ⟨bytes, after, rfl, inner, least, most⟩ := characters_split h
  rw [characters_quoted least most inner] at h
  cases h
  have whole : mark :: (bytes ++ mark :: after).take (bytes.length + 1) =
      mark :: bytes ++ [mark] := by
    rw [List.take_add, List.take_left, List.drop_left]
    rfl
  rw [whole]
  exact ⟨.quoted quote least most inner, List.getLast?_concat⟩

theorem operatorOf?_spelled {afterValue : Bool} {b : UInt8} {op : Operator}
    (h : operatorOf? afterValue b = some op) :
    Spelled (.operator op) [b] ∧ isNameByte b = false ∧
      ∀ op', op = .unary op' → afterValue = false := by
  have checked := Bytes.forall_byte (p := fun b =>
    match operatorOf? afterValue b with
    | none => true
    | some (.unary op) => b == op.sign && !isNameByte b && !afterValue
    | some (.binary op) => decide ([b] ∈ op.signs) && !isNameByte b)
    (by cases afterValue <;> decide +kernel) b
  simp only [h] at checked
  cases op with
  | unary op =>
    simp only [Bool.and_eq_true, beq_iff_eq, Bool.not_eq_true'] at checked
    obtain ⟨⟨rfl, other⟩, before⟩ := checked
    exact ⟨.unary op, other, fun _ _ => before⟩
  | binary op =>
    simp only [Bool.and_eq_true, decide_eq_true_eq, Bool.not_eq_true'] at checked
    exact ⟨.binary checked.1, checked.2, nofun⟩

/-- An item that is read: its text, what may follow it, and where it stands. -/
structure ReadWell (afterValue : Bool) (item : Item) (text rest : Bytes) : Prop where
  spelled : Spelled item text
  apart : EndsName text → Ended rest
  due : ∀ op, item = .operator (.unary op) → afterValue = false

theorem not_endsName_of_last {text : Bytes} {b : UInt8} (last : text.getLast? = some b)
    (other : isNameByte b = false) : ¬EndsName text := by
  rintro ⟨c, member, inside⟩
  obtain rfl := Option.some.inj (last.symm.trans (Option.mem_def.mp member))
  rw [other] at inside
  cases inside

theorem readWell_single {afterValue : Bool} {item : Item} {b : UInt8} {rest : Bytes}
    (spelled : Spelled item [b]) (other : isNameByte b = false)
    (due : ∀ op, item = .operator (.unary op) → afterValue = false) :
    ReadWell afterValue item (b :: rest.take 0) (rest.drop 0) :=
  ⟨spelled, fun ends => absurd ends (not_endsName_of_last rfl other), due⟩

theorem readWell_marked {afterValue : Bool} {mark : UInt8} {base more : Nat} {rest : Bytes}
    {item : Item} (radix : ([mark], base) ∈ radices) (good : ∀ e, item ≠ .bad e)
    (h : ofLiteral 0 (number [mark] base rest) = (item, more)) :
    ReadWell afterValue item (mark :: rest.take more) (rest.drop more) := by
  have small : base ≤ 16 := by
    have all : ∀ radix ∈ radices, radix.2 ≤ 16 := by decide
    exact all _ radix
  cases read : number [mark] base rest with
  | error e =>
    rw [read] at h
    cases h
    exact absurd rfl (good e)
  | ok result =>
    obtain ⟨v, length⟩ := result
    rw [read] at h
    cases h
    obtain ⟨n, rfl, numeral, ended⟩ := number_ok small read
    exact ⟨.literal (@Literal.number [mark] base _ n radix numeral), fun _ => ended, nofun⟩

theorem readWell_decimal {afterValue : Bool} {b : UInt8} {rest : Bytes} {v : Int64} {length : Nat}
    (read : number [] 10 (b :: rest) = .ok (v, length)) :
    ReadWell afterValue (.value v) (b :: rest.take (length - 1)) (rest.drop (length - 1)) := by
  obtain ⟨n, rfl, numeral, ended⟩ := number_ok (by decide) read
  cases length with
  | zero => exact absurd rfl numeral.nonempty
  | succ length =>
    have literal := @Literal.number [] 10 _ n (by decide) numeral
    exact ⟨.literal literal, fun _ => ended, nofun⟩

theorem readWell_quoted {afterValue : Bool} {b : UInt8} {rest : Bytes} {v : Int64} {length : Nat}
    (quote : b = '\''.toUInt8 ∨ b = '"'.toUInt8) (read : characters b rest = .ok (v, length)) :
    ReadWell afterValue (.value v) (b :: rest.take (length + 1)) (rest.drop (length + 1)) := by
  obtain ⟨literal, last⟩ := characters_ok quote read
  have other : isNameByte b = false := by rcases quote with rfl | rfl <;> decide
  exact ⟨.literal literal, fun ends => absurd ends (not_endsName_of_last last other), nofun⟩

theorem readWell_name {afterValue : Bool} {b : UInt8} {rest : Bytes}
    (start : startsName b = true) :
    ReadWell afterValue (.symbol (b :: rest.takeWhile isNameByte))
      (b :: rest.take (rest.takeWhile isNameByte).length)
      (rest.drop (rest.takeWhile isNameByte).length) := by
  have ⟨taken, left⟩ := take_length_takeWhile isNameByte rest
  rw [taken, left]
  refine ⟨.symbol ⟨b, _, rfl, start, ?_⟩, fun _ c next => ?_, nofun⟩
  · exact List.all_eq_true.mp List.all_takeWhile
  · have stop := List.head?_dropWhile_not isNameByte rest
    rw [Option.mem_def.mp next] at stop
    simpa using stop

theorem readWell_shift {afterValue : Bool} {b : UInt8} {rest : Bytes} {item : Item} {more : Nat}
    (sign : b = '<'.toUInt8 ∨ b = '>'.toUInt8) (good : ∀ e, item ≠ .bad e)
    (h : shiftAt b rest = (item, more)) :
    ReadWell afterValue item (b :: rest.take more) (rest.drop more) := by
  unfold shiftAt at h
  split at h
  · rename_i twice
    obtain ⟨rest, rfl⟩ : ∃ rest', rest = b :: rest' := by
      cases rest with
      | nil => cases twice
      | cons c rest => exact ⟨rest, by rw [Option.some.inj twice]⟩
    cases h
    have pair : b :: (b :: rest).take 1 = [b, b] := rfl
    rw [pair]
    rcases sign with rfl | rfl
    all_goals
      refine ⟨.binary (by decide), fun ends => absurd ends ?_, nofun⟩
      exact not_endsName_of_last rfl (by decide)
  · cases h
    exact absurd rfl (good _)

theorem itemAt_readWell {afterValue : Bool} {b : UInt8} {rest : Bytes} {item : Item} {more : Nat}
    (h : itemAt afterValue b rest = (item, more)) (good : ∀ e, item ≠ .bad e) :
    ReadWell afterValue item (b :: rest.take more) (rest.drop more) := by
  unfold itemAt at h
  split at h
  · rename_i same
    cases h
    exact same ▸ readWell_single .opening (by decide) nofun
  split at h
  · rename_i same
    cases h
    exact same ▸ readWell_single .closing (by decide) nofun
  split at h
  · split at h
    · cases h
      exact readWell_decimal ‹_›
    · cases h
      exact absurd rfl (good _)
  split at h
  · rename_i same
    subst same
    exact readWell_marked (by decide) good h
  split at h
  · rename_i quote
    cases read : characters b rest with
    | error e =>
      rw [read] at h
      cases h
      exact absurd rfl (good e)
    | ok result =>
      rw [read] at h
      cases h
      exact readWell_quoted quote read
  split at h
  · rename_i same
    obtain ⟨rfl, -⟩ := same
    exact readWell_marked (by decide) good h
  split at h
  · rename_i same
    obtain ⟨rfl, -⟩ := same
    exact readWell_marked (by decide) good h
  split at h
  · cases h
    exact readWell_name ‹_›
  split at h
  · exact readWell_shift ‹_› good h
  · cases found : operatorOf? afterValue b with
    | none =>
      rw [found] at h
      cases h
      exact absurd rfl (good _)
    | some op =>
      rw [found] at h
      cases h
      obtain ⟨spelled, other, due⟩ := operatorOf?_spelled found
      exact readWell_single spelled other fun op' same => due op' (by cases same; rfl)

theorem readFrom_itemAt {afterValue : Bool} {b : UInt8} {rest : Bytes} {item : Item} {more : Nat}
    (ink : ¬Bytes.IsBlank b) (read : itemAt afterValue b rest = (item, more)) :
    (∃ e, item = .bad e ∧ readFrom afterValue 0 (b :: rest) = [item]) ∨
      (∀ e, item ≠ .bad e) ∧ readFrom afterValue 0 (b :: rest) =
        item :: readFrom item.endsValue 0 (rest.drop more) := by
  have here : readFrom afterValue 0 (b :: rest) = _ := if_neg ink
  rw [read] at here
  rw [here, ← readFrom_drop]
  cases item with
  | bad e => exact .inl ⟨e, rfl, rfl⟩
  | value | symbol | operator | opening | closing => exact .inr ⟨nofun, rfl⟩

/-- An operator in a text that begins with a quotation mark follows on a literal. -/
theorem exists_quoted {mark : UInt8} {text : Bytes} {op : Operator}
    (quote : mark = '\''.toUInt8 ∨ mark = '"'.toUInt8)
    (good : ∀ e, .bad e ∉ ofText (mark :: text)) (operator : .operator op ∈ ofText (mark :: text)) :
    ∃ bytes after, text = bytes ++ mark :: after ∧ mark ∉ bytes ∧ 1 ≤ bytes.length ∧
      after ≠ [] := by
  have here : itemAt false mark text = ofLiteral 1 (characters mark text) := by
    rcases quote with rfl | rfl <;> rfl
  have ink : ¬Bytes.IsBlank mark := by
    rcases quote with rfl | rfl <;> decide
  cases read : characters mark text with
  | error e =>
    rw [read] at here
    rcases readFrom_itemAt ink here with ⟨_, _, only⟩ | ⟨fine, -⟩
    · rw [ofText, only] at good
      exact absurd List.mem_cons_self (good e)
    · exact absurd rfl (fine e)
  | ok result =>
    obtain ⟨bytes, after, rfl, inner, least, most⟩ := characters_split read
    rw [characters_quoted least most inner] at here
    refine ⟨bytes, after, rfl, inner, least, ?_⟩
    rintro rfl
    rcases readFrom_itemAt ink here with ⟨_, impossible, _⟩ | ⟨-, items⟩
    · cases impossible
    · have nothing : (bytes ++ [mark]).drop (bytes.length + 1) = [] :=
        List.drop_eq_nil_of_le (by simp)
      rw [ofText, items, nothing] at operator
      cases List.mem_singleton.mp operator

/-- A relation between the state of the reading, the rest of a text and its items that allows each
thing that can come next. -/
structure Reads (motive : Bool → Bytes → List Item → Prop) : Prop where
  nil {afterValue : Bool} : motive afterValue [] []
  blank {afterValue : Bool} {b : UInt8} {rest : Bytes} {items : List Item} (blank : Bytes.IsBlank b)
    (later : motive afterValue rest items) : motive afterValue (b :: rest) items
  bad {afterValue : Bool} {text : Bytes} (e : Error) : motive afterValue text [.bad e]
  item {afterValue : Bool} {item : Item} {text rest : Bytes} {items : List Item} (filled : text ≠ [])
    (well : ReadWell afterValue item text rest) (later : motive item.endsValue rest items) :
    motive afterValue (text ++ rest) (item :: items)

theorem Reads.readFrom {motive : Bool → Bytes → List Item → Prop} (reads : Reads motive)
    (afterValue : Bool) (text : Bytes) : motive afterValue text (readFrom afterValue 0 text) := by
  induction length : text.length using Nat.strongRecOn generalizing afterValue text with
  | ind size ih =>
  cases text with
  | nil => exact reads.nil
  | cons b rest =>
    by_cases blank : Bytes.IsBlank b
    · have same : Item.readFrom afterValue 0 (b :: rest) = Item.readFrom afterValue 0 rest :=
        if_pos blank
      rw [same]
      exact reads.blank blank (ih rest.length (by simp [← length]) afterValue rest rfl)
    cases read : itemAt afterValue b rest with
    | mk item more =>
    rcases readFrom_itemAt blank read with ⟨e, rfl, only⟩ | ⟨fine, items⟩
    · rw [only]
      exact reads.bad e
    · have smaller : (rest.drop more).length < size := by
        rw [← length, List.length_drop, List.length_cons]
        omega
      have whole := reads.item (List.cons_ne_nil _ _) (itemAt_readWell read fine)
        (ih _ smaller item.endsValue (rest.drop more) rfl)
      rw [List.cons_append, List.take_append_drop] at whole
      rw [items]
      exact whole

theorem reads_spells : Reads fun afterValue text items => (∀ e, .bad e ∉ items) →
    Spells items text ∧ Yard.Consistent afterValue items where
  nil _ := ⟨.nil (List.forall_mem_nil _), trivial⟩
  blank blank later good := by
    obtain ⟨spells, consistent⟩ := later good
    exact ⟨spells.gap (List.forall_mem_singleton.mpr blank), consistent⟩
  bad e good := absurd List.mem_cons_self (good e)
  item _ well later good := by
    obtain ⟨spells, consistent⟩ := later fun e member => good e (List.mem_cons_of_mem _ member)
    exact ⟨.cons (List.forall_mem_nil _) well.spelled well.apart spells, well.due, consistent⟩

/-- Items without a bad one spell the text they were read from. -/
theorem spells_readFrom (afterValue : Bool) (text : Bytes)
    (good : ∀ e, .bad e ∉ readFrom afterValue 0 text) :
    Spells (readFrom afterValue 0 text) text ∧
      Yard.Consistent afterValue (readFrom afterValue 0 text) :=
  reads_spells.readFrom afterValue text good

end Item

/-! ### Acceptance -/

theorem steps_good {symbols : Bytes → Option Int64} {yard yard' : Yard} {items : List Item}
    (h : yard.steps symbols items = .ok yard') (e : Error) : Item.bad e ∉ items := by
  induction items generalizing yard with
  | nil => exact List.not_mem_nil
  | cons item items ih =>
    rw [Yard.steps] at h
    cases here : yard.step symbols item with
    | error e =>
      rw [here] at h
      cases h
    | ok next =>
      rw [here] at h
      intro member
      rcases List.mem_cons.mp member with rfl | later
      · cases here
      · exact ih h later

theorem compile_good {symbols : Bytes → Option Int64} {items : List Item}
    {program : List Instruction} (h : compile symbols items = .ok program) (e : Error) :
    Item.bad e ∉ items := by
  unfold compile at h
  cases run : Yard.initial.steps symbols items with
  | error e =>
    rw [run] at h
    cases h
  | ok yard => exact steps_good run e

theorem compile_of_evaluate {symbols : Bytes → Option Int64} {text : Bytes} {v : Int64}
    (h : evaluate symbols text = .ok v) :
    ∃ program, compile symbols (Item.ofText (bare text)) = .ok program := by
  unfold evaluate at h
  cases compiled : compile symbols (Item.ofText (bare text)) with
  | error e =>
    rw [compiled] at h
    cases h
  | ok program => exact ⟨program, rfl⟩

theorem bare_cons {b : UInt8} (ink : Bytes.IsInk b) (unmarked : b ≠ '#'.toUInt8) (text : Bytes) :
    ∃ kept dropped, bare (b :: text) = b :: kept ∧ text = kept ++ dropped := by
  obtain ⟨kept, dropped, trimmed, whole⟩ := Bytes.trim_cons_ink ink text
  refine ⟨kept, dropped, ?_, whole⟩
  rw [bare, trimmed]
  exact if_neg unmarked

/-- A text compiles exactly when it spells an expression of the grammar whose symbols are known,
and what compiles never leaves the machine stuck. -/
theorem compile_text (symbols : Bytes → Option Int64) (text : Bytes) :
    ((∃ program, compile symbols (Item.ofText (bare text)) = .ok program) ↔
      ∃ items, Spells items (bare text) ∧ Derives .expression items ∧ Known symbols items) ∧
    ∀ program, compile symbols (Item.ofText (bare text)) = .ok program →
      (∃ v, run program = .ok v) ∨ run program = .error .divisionByZero := by
  have read {program : List Instruction}
      (h : compile symbols (Item.ofText (bare text)) = .ok program) :=
    Item.spells_readFrom false (bare text) (compile_good h)
  refine ⟨⟨?_, ?_⟩, fun program compiled => run_compiled (read compiled).2 compiled⟩
  · rintro ⟨program, compiled⟩
    obtain ⟨spells, consistent⟩ := read compiled
    obtain ⟨derives, known⟩ := derives_of_compile consistent compiled
    exact ⟨_, spells, derives, known⟩
  · rintro ⟨items, spells, derives, known⟩
    have ended : Item.Alternates true [] := trivial
    have alternates : Item.Alternates false items := by
      simpa using Item.alternates_of_derives derives ended
    obtain ⟨tree, compiled⟩ := compile_derived derives known
    rw [Item.ofText, Item.readFrom_spells spells alternates]
    exact ⟨_, compiled⟩

end Asm68k.Expression
