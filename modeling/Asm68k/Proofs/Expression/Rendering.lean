import Asm68k.Expression
import Asm68k.Proofs.Expression.Literal
import Asm68k.Proofs.Expression.Sorting

/-!
Renderings of expression trees as text: parentheses at least where the tiers demand them, blanks
between the parts, and maybe a number sign in front. Evaluating a rendering gives the meaning of
the tree.
-/

namespace Asm68k.Expression

/-! ### Renderings -/

def UnaryOp.sign : UnaryOp → UInt8
  | .minus => '-'.toUInt8
  | .plus => '+'.toUInt8
  | .complement => '~'.toUInt8

def BinaryOp.signs : BinaryOp → List Bytes
  | .multiply => [['*'.toUInt8]]
  | .divide => [['/'.toUInt8]]
  | .modulo => [['%'.toUInt8]]
  | .add => [['+'.toUInt8]]
  | .subtract => [['-'.toUInt8]]
  | .shiftLeft => [['<'.toUInt8, '<'.toUInt8]]
  | .shiftRight => [['>'.toUInt8, '>'.toUInt8]]
  | .and => [['&'.toUInt8]]
  | .xor => [['^'.toUInt8], ['~'.toUInt8]]
  | .or => [['|'.toUInt8], ['!'.toUInt8]]

def IsName (name : Bytes) : Prop :=
  ∃ b rest, name = b :: rest ∧ Item.startsName b = true ∧ ∀ c ∈ rest, Item.isNameByte c = true

def Gap (text : Bytes) : Prop := ∀ b ∈ text, Bytes.IsBlank b

/-- The text of a tree in a place that demands a tier. -/
inductive Written : Nat → Tree → Bytes → Prop
  | literal {tier v text} (spelled : Literal v text) : Written tier (.literal v) text
  | symbol {tier name} (isName : IsName name) : Written tier (.symbol name) name
  | unary {tier op operand gap text} (blank : Gap gap)
      (inner : Written UnaryOp.tier operand text) :
    Written tier (.unary op operand) (op.sign :: gap ++ text)
  | binary {tier op left right text gap sign gap' text'} (loose : tier ≤ op.tier)
      (before : Written op.tier left text) (blank : Gap gap) (spelled : sign ∈ op.signs)
      (blank' : Gap gap') (after : Written (op.tier + 1) right text') :
    Written tier (.binary op left right) (text ++ (gap ++ sign ++ gap') ++ text')
  | group {tier tree gap text gap'} (blank : Gap gap) (inner : Written 1 tree text)
      (blank' : Gap gap') :
    Written tier tree ('('.toUInt8 :: gap ++ text ++ gap' ++ [')'.toUInt8])

inductive Rendering : Tree → Bytes → Prop
  | plain {tree gap text gap'} (blank : Gap gap) (body : Written 1 tree text) (blank' : Gap gap') :
    Rendering tree (gap ++ text ++ gap')
  | signed {tree gap gap' text gap''} (blank : Gap gap) (blank' : Gap gap')
      (body : Written 1 tree text) (blank'' : Gap gap'') :
    Rendering tree (gap ++ ('#'.toUInt8 :: gap' ++ text) ++ gap'')

namespace Item

/-! ### Reading the parts -/

theorem readFrom_gap (afterValue : Bool) {gap : Bytes} (blank : Gap gap) (rest : Bytes) :
    readFrom afterValue 0 (gap ++ rest) = readFrom afterValue 0 rest := by
  induction gap with
  | nil => rfl
  | cons b gap ih =>
    have ⟨first, others⟩ := List.forall_mem_cons.mp blank
    rw [List.cons_append, readFrom]
    exact (if_pos first).trans (ih others)

theorem readFrom_skip (afterValue : Bool) (text rest : Bytes) :
    readFrom afterValue text.length (text ++ rest) = readFrom afterValue 0 rest := by
  induction text with
  | nil => rfl
  | cons b text ih => rw [List.cons_append, List.length_cons, readFrom, ih]

/-- One item, which begins with the byte `b` and takes the bytes of `text`. -/
theorem readFrom_item {afterValue : Bool} {b : UInt8} {text rest : Bytes} {item : Item}
    (ink : ¬Bytes.IsBlank b) (read : itemAt afterValue b (text ++ rest) = (item, text.length))
    (good : ∀ e, item ≠ .bad e) :
    readFrom afterValue 0 (b :: text ++ rest) = item :: readFrom item.endsValue 0 rest := by
  rw [List.cons_append, readFrom]
  refine (if_neg ink).trans ?_
  rw [read]
  cases item with
  | bad e => exact absurd rfl (good e)
  | value | symbol | operator | opening | closing =>
    dsimp only
    rw [readFrom_skip]

theorem Ended.gap {gap rest : Bytes} (blank : Gap gap) (ended : Ended rest) :
    Ended (gap ++ rest) := by
  cases gap with
  | nil => exact ended
  | cons b gap =>
    intro b' next
    obtain rfl := Option.some.inj next
    rcases blank b List.mem_cons_self with rfl | rfl <;> decide

theorem readFrom_unary (op : UnaryOp) (rest : Bytes) :
    readFrom false 0 (op.sign :: rest) = .operator (.unary op) :: readFrom false 0 rest := by
  cases op <;> rfl

theorem signs_cases {op : BinaryOp} {sign : Bytes} (spelled : sign ∈ op.signs) (rest : Bytes) :
    Ended (sign ++ rest) ∧
      readFrom true 0 (sign ++ rest) = .operator (.binary op) :: readFrom false 0 rest := by
  cases op <;> simp only [BinaryOp.signs, List.mem_cons, List.not_mem_nil, or_false] at spelled
  case xor | or =>
    rcases spelled with rfl | rfl
    all_goals exact ⟨fun b next => Option.some.inj next ▸ by decide, rfl⟩
  all_goals
    obtain rfl := spelled
    exact ⟨fun b next => Option.some.inj next ▸ by decide, rfl⟩

theorem itemAt_number {b : UInt8} (decimal : Bytes.isDigit b = true) {text rest : Bytes} {v : Int64}
    (read : number [] 10 (b :: text ++ rest) = .ok (v, (b :: text).length)) :
    itemAt false b (text ++ rest) = (.value v, text.length) := by
  have different (c : UInt8) (other : Bytes.isDigit c = false) : b ≠ c := by
    rintro rfl
    exact Bool.false_ne_true (other.symm.trans decimal)
  rw [List.cons_append] at read
  rw [itemAt, if_neg (different _ (by decide)), if_neg (different _ (by decide)), if_pos decimal,
    read]
  rfl

theorem readFrom_literal {v : Int64} {text rest : Bytes} (spelled : Literal v text)
    (ended : Ended rest) : readFrom false 0 (text ++ rest) = .value v :: readFrom true 0 rest := by
  cases spelled with
  | @number mark base text n radix numeral =>
    have read (mark : Bytes) := number_numeral numeral mark ended
    simp only [radices, List.mem_cons, List.not_mem_nil, or_false, Prod.mk.injEq] at radix
    rcases radix with ⟨rfl, rfl⟩ | ⟨rfl, rfl⟩ | ⟨rfl, rfl⟩ | ⟨rfl, rfl⟩
    · obtain ⟨b, digits, rfl⟩ := List.exists_cons_of_ne_nil numeral.nonempty
      have decimal := numeral.decimal b List.mem_cons_self
      refine readFrom_item ?_ (itemAt_number decimal (read [])) (fun e => nofun)
      rintro (rfl | rfl) <;> exact absurd decimal (by decide)
    all_goals
      refine readFrom_item (by decide) ?_ (fun e => nofun)
      refine (congrArg (ofLiteral 0) (read [_])).trans ?_
      rfl
  | @quoted mark bytes quote least most inner =>
    have read := characters_quoted least most inner rest
    rcases quote with rfl | rfl
    all_goals
      rw [List.cons_append]
      refine readFrom_item (by decide) ?_ (fun e => nofun)
      rw [List.append_assoc, List.length_append]
      exact congrArg (ofLiteral 1) read

theorem readFrom_symbol {name rest : Bytes} (isName : IsName name) (ended : Ended rest) :
    readFrom false 0 (name ++ rest) = .symbol name :: readFrom true 0 rest := by
  obtain ⟨b, text, rfl, start, inside⟩ := isName
  have different (c : UInt8) (other : startsName c = false) : b ≠ c := by
    rintro rfl
    exact Bool.false_ne_true (other.symm.trans start)
  have notDigit : Bytes.isDigit b = false := by
    have checked := Bytes.forall_byte (p := fun b => !startsName b || !Bytes.isDigit b)
      (by decide +kernel) b
    simpa [start] using checked
  have ⟨taken, _⟩ := Bytes.takeWhile_ended inside ended
  refine readFrom_item ?_ ?_ (fun e => nofun)
  · rintro (rfl | rfl) <;> exact absurd start (by decide)
  · rw [itemAt, if_neg (different _ (by decide)), if_neg (different _ (by decide)),
      if_neg (by rw [notDigit]; exact Bool.false_ne_true), if_neg (different _ (by decide)),
      if_neg (fun h => h.elim (different _ (by decide)) (different _ (by decide))),
      if_neg (fun h => different _ (by decide) h.1), if_neg (fun h => different _ (by decide) h.1),
      if_pos start, taken]

/-- A rendering reads as the items of the tree, whatever ends it. -/
theorem readFrom_written {tier : Nat} {tree : Tree} {text : Bytes}
    (written : Written tier tree text) :
    ∃ items, Arranged tier tree items ∧ ∀ rest, Ended rest →
      readFrom false 0 (text ++ rest) = items ++ readFrom true 0 rest := by
  induction written with
  | literal spelled =>
    exact ⟨_, .literal, fun rest ended => readFrom_literal spelled ended⟩
  | symbol isName =>
    exact ⟨_, .symbol, fun rest ended => readFrom_symbol isName ended⟩
  | @unary tier op operand gap text blank inner ih =>
    obtain ⟨items, arranged, read⟩ := ih
    refine ⟨_, .unary arranged, fun rest ended => ?_⟩
    rw [List.append_assoc, List.cons_append, readFrom_unary, readFrom_gap false blank,
      read rest ended, List.cons_append]
  | @binary tier op left right text gap sign gap' text' loose before blank spelled blank' after
      ihLeft ihRight =>
    obtain ⟨items, arranged, read⟩ := ihLeft
    obtain ⟨items', arranged', read'⟩ := ihRight
    refine ⟨_, .binary loose arranged arranged', fun rest ended => ?_⟩
    -- The sign ends the left operand, so neither a number nor a name reads on into it.
    have ⟨apart, sorted⟩ := signs_cases spelled (gap' ++ (text' ++ rest))
    simp only [List.append_assoc] at apart sorted ⊢
    rw [read _ (apart.gap blank), readFrom_gap true blank, sorted, readFrom_gap false blank',
      read' rest ended, List.cons_append]
  | @group tier tree gap text gap' blank inner blank' ih =>
    obtain ⟨items, arranged, read⟩ := ih
    refine ⟨_, .group arranged, fun rest ended => ?_⟩
    have apart : Ended (')'.toUInt8 :: rest) := fun b next => Option.some.inj next ▸ by decide
    have opened (rest : Bytes) : readFrom false 0 ('('.toUInt8 :: rest) =
        .opening :: readFrom false 0 rest := rfl
    have closed : readFrom true 0 (')'.toUInt8 :: rest) = .closing :: readFrom true 0 rest := rfl
    simp only [List.append_assoc, List.cons_append, List.nil_append]
    rw [opened, readFrom_gap false blank, read _ (apart.gap blank'), readFrom_gap true blank',
      closed]

end Item

/-! ### The ends of a rendering -/

theorem isInk_of_isNameByte {b : UInt8} (part : Item.isNameByte b = true) :
    Bytes.IsInk b ∧ b ≠ '#'.toUInt8 := by
  have checked := Bytes.forall_byte (p := fun b => !Item.isNameByte b ||
    decide (Bytes.IsInk b ∧ b ≠ '#'.toUInt8)) (by decide +kernel) b
  simpa [part] using checked

/-- The text begins and ends with ink, and not with a number sign. -/
def Framed (text : Bytes) : Prop := Bytes.IsSolid text ∧ text.head? ≠ some '#'.toUInt8

theorem framed_of_names {text : Bytes} (nonempty : text ≠ [])
    (inside : ∀ b ∈ text, Item.isNameByte b = true) : Framed text := by
  have ink : ∀ b ∈ text, Bytes.IsInk b := fun b member =>
    (isInk_of_isNameByte (inside b member)).1
  refine ⟨Bytes.isSolid_of_ink nonempty ink, ?_⟩
  intro first
  exact (isInk_of_isNameByte (inside _ (List.mem_of_head? first))).2 rfl

theorem framed_byte {b : UInt8} (ink : Bytes.IsInk b) (other : b ≠ '#'.toUInt8) : Framed [b] := by
  refine ⟨Bytes.isSolid_of_ink (List.cons_ne_nil _ _) (List.forall_mem_singleton.mpr ink), ?_⟩
  exact fun first => other (Option.some.inj first)

theorem Framed.join {text text' : Bytes} (framed : Framed text) (middle : Bytes)
    (framed' : Framed text') : Framed (text ++ middle ++ text') := by
  refine ⟨framed.1.join middle framed'.1, ?_⟩
  rw [List.append_assoc, framed.1.head?_append]
  exact framed.2

theorem Numeral.framed {base n : Nat} {text : Bytes} (numeral : Numeral base text n) :
    Framed text :=
  framed_of_names numeral.nonempty fun b member =>
    Item.isNameByte_of_isDigitOf (numeral.isDigitOf b member)

theorem Literal.framed {v : Int64} {text : Bytes} (spelled : Literal v text) : Framed text := by
  cases spelled with
  | number radix numeral =>
    have digits := numeral.framed
    simp only [radices, List.mem_cons, List.not_mem_nil, or_false, Prod.mk.injEq] at radix
    rcases radix with ⟨rfl, rfl⟩ | ⟨rfl, rfl⟩ | ⟨rfl, rfl⟩ | ⟨rfl, rfl⟩
    · exact digits
    all_goals exact (framed_byte (by decide) (by decide)).join [] digits
  | @quoted mark bytes quote least most inner =>
    have mark : Framed [mark] := by
      rcases quote with rfl | rfl <;> exact framed_byte (by decide) (by decide)
    exact mark.join bytes mark

theorem Written.framed {tier : Nat} {tree : Tree} {text : Bytes}
    (written : Written tier tree text) : Framed text := by
  induction written with
  | literal spelled => exact spelled.framed
  | symbol isName =>
    obtain ⟨b, rest, rfl, start, inside⟩ := isName
    apply framed_of_names (List.cons_ne_nil _ _)
    refine List.forall_mem_cons.mpr ⟨?_, inside⟩
    rw [Item.isNameByte, start, Bool.true_or]
  | @unary tier op operand gap text blank inner ih =>
    have sign : Framed [op.sign] := by cases op <;> exact framed_byte (by decide) (by decide)
    exact sign.join gap ih
  | binary loose before blank spelled blank' after ihLeft ihRight => exact ihLeft.join _ ihRight
  | @group tier tree gap text gap' blank inner blank' ih =>
    have opening : Framed ['('.toUInt8] := framed_byte (by decide) (by decide)
    have closing : Framed [')'.toUInt8] := framed_byte (by decide) (by decide)
    have := opening.join (gap ++ text ++ gap') closing
    simpa only [List.append_assoc, List.cons_append, List.nil_append] using this

/-! ### Evaluation -/

theorem ofText_written {tree : Tree} {gap text : Bytes} (blank : Gap gap)
    (body : Written 1 tree text) : Arranged 1 tree (Item.ofText (gap ++ text)) := by
  obtain ⟨items, arranged, read⟩ := Item.readFrom_written body
  have whole := read [] fun b next => absurd next (Option.not_mem_none b)
  rw [List.append_nil, Item.readFrom, List.append_nil] at whole
  rw [Item.ofText, Item.readFrom_gap false blank, whole]
  exact arranged

theorem ofText_rendering {tree : Tree} {text : Bytes} (rendering : Rendering tree text) :
    Arranged 1 tree (Item.ofText (bare text)) := by
  cases rendering with
  | @plain gap text gap' blank body blank' =>
    have framed := body.framed
    have trimmed : bare (gap ++ text ++ gap') = text := by
      obtain ⟨b, rest, rfl, -⟩ := framed.1.head
      rw [bare, Bytes.trim_solid blank framed.1 blank']
      exact if_neg fun first => framed.2 (congrArg some first)
    rw [trimmed]
    exact ofText_written (List.forall_mem_nil _) body
  | @signed gap gap' text gap'' blank blank' body blank'' =>
    have sign : Bytes.IsSolid ['#'.toUInt8] :=
      Bytes.isSolid_of_ink (List.cons_ne_nil _ _) (List.forall_mem_singleton.mpr (by decide))
    have solid : Bytes.IsSolid ('#'.toUInt8 :: gap' ++ text) := sign.join gap' body.framed.1
    have trimmed : bare (gap ++ ('#'.toUInt8 :: gap' ++ text) ++ gap'') = gap' ++ text := by
      rw [bare, Bytes.trim_solid blank solid blank'']
      rfl
    rw [trimmed]
    exact ofText_written blank' body

theorem value?_literal {v : Int64} {text : Bytes} (spelled : Literal v text)
    (symbols : Bytes → Option Int64) : value? symbols text = some v := by
  have rendering : Rendering (.literal v) ([] ++ text ++ []) :=
    .plain (List.forall_mem_nil _) (.literal spelled) (List.forall_mem_nil _)
  rw [List.append_nil, List.nil_append] at rendering
  rw [value?, evaluate, compile_arranged (ofText_rendering rendering)]
  rfl

/-- Evaluating any rendering of a tree gives the meaning of the tree. -/
theorem evaluate_rendering {tree : Tree} {text : Bytes} (rendering : Rendering tree text)
    (symbols : Bytes → Option Int64) : evaluate symbols text = tree.meaning symbols := by
  have ran := tree.runFrom_program symbols [] []
  rw [List.append_nil] at ran
  rw [evaluate, compile_arranged (ofText_rendering rendering), Tree.meaning]
  cases tree.missing? symbols with
  | some name => rfl
  | none =>
    show (run (tree.program symbols)).mapError Halt.toError = _
    rw [run, ran]
    cases tree.dividesByZero symbols <;> rfl

/-- The tree of `-x * (%101 << 2) ~ 'A' % y`. -/
def maskedProduct : Tree :=
  .binary .xor
    (.binary .multiply (.unary .minus (.symbol ['x'.toUInt8]))
      (.binary .shiftLeft (.literal 5) (.literal 2)))
    (.binary .modulo (.literal 65) (.symbol ['y'.toUInt8]))

theorem evaluate_rendering_maskedProduct :
    let text := [' ', '#', '-', 'x', '*', '(', '%', '1', '0', '1', '<', '<', '2', '\t', ')', '~',
      '\'', 'A', '\'', ' ', '%', 'y', ' '].map Char.toUInt8
    let symbols (x y : Option Int64) (name : Bytes) :=
      if name = ['x'.toUInt8] then x else if name = ['y'.toUInt8] then y else none
    Rendering maskedProduct text ∧
      evaluate (symbols (some 3) (some 7)) text = .ok (-58) ∧
      evaluate (symbols (some 3) (some 0)) text = .error .divisionByZero ∧
      evaluate (symbols none none) text = .error (.unknownSymbol ['x'.toUInt8]) := by
  have none : Gap [] := List.forall_mem_nil _
  have space : Gap [' '.toUInt8] := List.forall_mem_singleton.mpr (by decide)
  have x : Written 7 (.symbol ['x'.toUInt8]) ['x'.toUInt8] :=
    .symbol ⟨_, [], rfl, by decide, List.forall_mem_nil _⟩
  have y : Written 7 (.symbol ['y'.toUInt8]) ['y'.toUInt8] :=
    .symbol ⟨_, [], rfl, by decide, List.forall_mem_nil _⟩
  have five : Literal 5 (['%', '1', '0', '1'].map Char.toUInt8) :=
    @Literal.number ['%'.toUInt8] 2 (['1', '0', '1'].map Char.toUInt8) 5 (by decide)
      ⟨[1, 0, 1], by decide, by repeat constructor, by decide, by decide⟩
  have two : Literal 2 ['2'.toUInt8] :=
    @Literal.number [] 10 ['2'.toUInt8] 2 (by decide)
      ⟨[2], by decide, by repeat constructor, by decide, by decide⟩
  have letter : Literal 65 (['\'', 'A', '\''].map Char.toUInt8) :=
    @Literal.quoted '\''.toUInt8 ['A'.toUInt8] (by decide) (by decide) (by decide) (by decide)
  have shift := @Written.binary 1 .shiftLeft _ _ _ [] ['<'.toUInt8, '<'.toUInt8] [] _ (by decide)
    (.literal five) none (by decide) none (.literal two)
  have group := @Written.group 7 _ [] _ ['\t'.toUInt8] none shift
    (List.forall_mem_singleton.mpr (by decide))
  have product := @Written.binary 2 .multiply _ _ _ [] ['*'.toUInt8] [] _ (by decide)
    (@Written.unary 6 .minus _ [] _ none x) none (by decide) none group
  have remainder := @Written.binary 3 .modulo _ _ _ [' '.toUInt8] ['%'.toUInt8] [] _ (by decide)
    (.literal letter) space (by decide) none y
  have whole := @Written.binary 1 .xor _ _ _ [] ['~'.toUInt8] [] _ (by decide) product none
    (by decide) none remainder
  have rendering := Rendering.signed space none whole space
  exact ⟨rendering, (evaluate_rendering rendering _).trans (by decide +kernel),
    (evaluate_rendering rendering _).trans (by decide +kernel),
    (evaluate_rendering rendering _).trans (by decide +kernel)⟩

end Asm68k.Expression
