import Asm68k.Proofs.Expression.Characters
import Asm68k.Proofs.Expression.Lookups
import Asm68k.Statement

/-!
The names in a text, and what the value depends on. A name that is looked up stands in the text, and
no byte of a name stands beside it (`NamedIn`). So tables of symbols that agree on the names in the
text give the same value or the same error, and more symbols never change a value.
-/

namespace Asm68k.Expression

/-- The name stands in the text, with no byte of a name directly before or after it. -/
def NamedIn (name text : Bytes) : Prop :=
  IsName name ∧ ∃ before after,
    text = before ++ (name ++ after) ∧ ¬EndsName before ∧ Item.Ended after

/-! ### Ends of texts -/

section

variable {text text' : Bytes}

theorem EndsName.of_append (ends : EndsName (text ++ text')) : EndsName text ∨ EndsName text' := by
  obtain ⟨b, last, inside⟩ := ends
  rw [List.getLast?_append, Option.mem_def, Option.or_eq_some_iff] at last
  rcases last with last | ⟨-, last⟩
  · exact .inr ⟨b, last, inside⟩
  · exact .inl ⟨b, last, inside⟩

theorem EndsName.of_append_filled (ends : EndsName (text ++ text')) (filled : text' ≠ []) :
    EndsName text' := by
  obtain ⟨b, last, inside⟩ := ends
  rw [List.getLast?_append_of_ne_nil _ filled] at last
  exact ⟨b, last, inside⟩

theorem not_endsName_of_inkless (inkless : ∀ b ∈ text, ¬Bytes.IsInk b) : ¬EndsName text := by
  rintro ⟨b, last, inside⟩
  exact inkless b (List.mem_of_getLast? last) (isInk_of_isNameByte inside).1

theorem ended_of_inkless (inkless : ∀ b ∈ text, ¬Bytes.IsInk b) : Item.Ended text := by
  intro b first
  rw [Bool.eq_false_iff]
  intro inside
  exact inkless b (List.mem_of_head? first) (isInk_of_isNameByte inside).1

theorem Item.Ended.append (ended : Item.Ended text) (ended' : Item.Ended text') :
    Item.Ended (text ++ text') := by
  intro b first
  rw [List.head?_append, Option.mem_def, Option.or_eq_some_iff] at first
  rcases first with first | ⟨-, first⟩
  · exact ended b first
  · exact ended' b first

theorem IsName.endsName {name : Bytes} (isName : IsName name) : EndsName name := by
  obtain ⟨b, rest, rfl, start, inside⟩ := isName
  refine ⟨_, List.getLast?_eq_some_getLast (List.cons_ne_nil b rest), ?_⟩
  have all : ∀ c ∈ b :: rest, Item.isNameByte c = true := by
    refine List.forall_mem_cons.mpr ⟨?_, inside⟩
    rw [Item.isNameByte, start, Bool.true_or]
  exact all _ (List.getLast_mem _)

end

/-! ### Names that are read -/

theorem NamedIn.within {name before text after : Bytes} (named : NamedIn name text)
    (apart : ¬EndsName before) (apart' : Item.Ended after) :
    NamedIn name (before ++ (text ++ after)) := by
  obtain ⟨isName, front, back, rfl, begins, ends⟩ := named
  refine ⟨isName, before ++ front, back ++ after, by simp, ?_, ends.append apart'⟩
  exact fun joined => joined.of_append.elim apart begins

/-- The text before a symbol ends with a byte of a name only if no name follows on it. -/
theorem reads_namedIn : Item.Reads fun _ text items => ∀ name, .symbol name ∈ items →
    ∀ before, (EndsName before → Item.Ended text) → NamedIn name (before ++ text) where
  nil name member := nomatch member
  blank {_ b rest _} blank later name member before _ := by
    have other : Item.isNameByte b = false := by rcases blank with rfl | rfl <;> decide
    have ends : ¬EndsName (before ++ [b]) :=
      Item.not_endsName_of_last List.getLast?_concat other
    have named := later name member (before ++ [b]) (absurd · ends)
    rwa [List.append_assoc] at named
  bad e name member := by simp at member
  item {_ item text rest _} filled well later name member before apart := by
    rcases List.mem_cons.mp member with rfl | member
    · cases well.spelled with
      | symbol isName =>
        refine ⟨isName, before, rest, rfl, ?_, well.apart isName.endsName⟩
        intro ends
        obtain ⟨b, name, rfl, start, -⟩ := isName
        have other : Item.isNameByte b = false := apart ends b rfl
        rw [Item.isNameByte, start] at other
        cases other
    · have named := later name member (before ++ text) fun ends =>
        well.apart (ends.of_append_filled filled)
      rwa [List.append_assoc] at named

theorem namedIn_of_mem_mentions {name text : Bytes} (member : name ∈ mentions text) :
    NamedIn name text := by
  obtain ⟨item, among, named⟩ := List.mem_filterMap.mp member
  have symbol : item = .symbol name := by
    cases item with
    | symbol other => rw [Option.some.inj named]
    | value | operator | opening | closing | bad => cases named
  subst symbol
  have nothing : ¬EndsName [] := fun ⟨b, last, _⟩ => nomatch last
  have inner : NamedIn name (bare text) :=
    reads_namedIn.readFrom false (bare text) name among [] (absurd · nothing)
  have trimmed : NamedIn name text.trim := by
    rcases bare_cases text with same | marked
    · rwa [same] at inner
    · have sign : ¬EndsName ['#'.toUInt8] := Item.not_endsName_of_last rfl (by decide)
      have ended : Item.Ended [] := fun b next => nomatch next
      have whole := inner.within sign ended
      rwa [List.append_nil, List.singleton_append, ← marked] at whole
  obtain ⟨before, after, whole, inkless, inkless'⟩ := Bytes.exists_trim text
  rw [whole]
  exact trimmed.within (not_endsName_of_inkless inkless) (ended_of_inkless inkless')

/-! ### What a value depends on -/

theorem value?_extended {symbols symbols' : Bytes → Option Int64} {text : Bytes} {v : Int64}
    (extends_ : ∀ name value, symbols name = some value → symbols' name = some value)
    (known : value? symbols text = some v) : value? symbols' text = some v := by
  have part : ∀ name ∈ mentions text, symbols name = none ∨ symbols name = symbols' name := by
    intro name _
    cases here : symbols name with
    | none => exact .inl rfl
    | some value => exact .inr (extends_ name value here).symm
  rcases value?_partial part with nothing | same
  · rw [nothing] at known
    cases known
  · rw [← same, known]

end Asm68k.Expression

namespace Asm68k

/-- What is known of an immediate operand is its value without symbols. -/
theorem Token.value?_of_operandKind {token : Token} {v : Int64}
    (filled : token.operandKind = .address .immediate (some v)) :
    Expression.value? (fun _ => none) token.text = some v := by
  unfold operandKind at filled
  split at filled
  case h_4 mode _ =>
    injection filled with immediate known
    rw [immediate] at known
    exact known
  all_goals cases filled

/-- The value of an expression depends on the names in its text alone, and once it is there more
symbols do not change it. In particular what is known of an immediate operand when its line is read
stays so. -/
theorem evaluate_local :
    (∀ (text : Bytes) (symbols symbols' : Bytes → Option Int64),
      (∀ name, Expression.NamedIn name text → symbols' name = symbols name) →
      Expression.evaluate symbols' text = Expression.evaluate symbols text) ∧
    (∀ (text : Bytes) (symbols symbols' : Bytes → Option Int64) (v : Int64),
      (∀ name value, symbols name = some value → symbols' name = some value) →
      Expression.value? symbols text = some v → Expression.value? symbols' text = some v) ∧
    ∀ line, ∀ operand ∈ (Statement.ofLine line).operands, ∀ v,
      operand.kind = .address .immediate (some v) →
      ∀ symbols, Expression.value? symbols operand.text = some v := by
  refine ⟨?_, fun _ _ _ _ => Expression.value?_extended, ?_⟩
  · intro text symbols symbols' agree
    apply Expression.evaluate_congr
    intro name member
    exact agree name
      (Expression.namedIn_of_mem_mentions (Expression.mem_mentions_of_mem_lookups member))
  · intro line operand member v filled symbols
    obtain ⟨token, -, rfl⟩ := List.mem_map.mp member
    exact Expression.value?_constant (Token.value?_of_operandKind filled) symbols

/-- A symbol that the text does not name may come along. -/
theorem evaluate_local_size :
    let text := Bytes.ofString " #size*2+1"
    let symbols name := if name = Bytes.ofString "size" then some 20 else none
    let symbols' name := if name = Bytes.ofString "x" then some 7 else symbols name
    let source : Operand := ⟨Bytes.ofString "#3*4", 7, .address .immediate (some 12)⟩
    (∀ name, Expression.NamedIn name text → symbols' name = symbols name) ∧
      (∀ name value, symbols name = some value → symbols' name = some value) ∧
      Expression.evaluate symbols' text = Expression.evaluate symbols text ∧
      Expression.value? symbols text = some 41 ∧ Expression.value? symbols' text = some 41 ∧
      source ∈ (Statement.ofLine (Bytes.ofString " moveq #3*4,d0")).operands ∧
      ∀ symbols, Expression.value? symbols source.text = some 12 := by
  intro text symbols symbols' source
  obtain ⟨agrees, grows, stays⟩ := evaluate_local
  have unnamed : 'x'.toUInt8 ∉ text := by decide
  have agree : ∀ name, Expression.NamedIn name text → symbols' name = symbols name := by
    rintro name ⟨-, before, after, whole, -⟩
    refine if_neg ?_
    rintro rfl
    rw [whole] at unnamed
    exact unnamed (List.mem_append_right _ (List.mem_append_left _ List.mem_cons_self))
  have extended : ∀ name value, symbols name = some value → symbols' name = some value := by
    intro name value known
    have other : name ≠ Bytes.ofString "x" := by
      rintro rfl
      cases known
    exact (if_neg other).trans known
  have known : Expression.value? symbols text = some 41 := by decide +kernel
  have member : source ∈ (Statement.ofLine (Bytes.ofString " moveq #3*4,d0")).operands := by
    decide +kernel
  exact ⟨agree, extended, agrees text symbols symbols' agree, known,
    grows text symbols symbols' 41 extended known, member, stays _ source member 12 rfl⟩

end Asm68k
