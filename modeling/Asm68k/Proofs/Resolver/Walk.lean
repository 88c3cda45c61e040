import Asm68k.Proofs.Pattern
import Asm68k.Proofs.Resolver.Moments
import Asm68k.Proofs.Rune

/-!
The nested frames of the resolver behave like one flat machine that walks over the resolved lines,
each before the lines below it. The machine has an address, a section and symbols. It learns from a
moment no more than the statement, whether that is resolved, and the bytes of the line; `Walks` says
that the resolver is where the machine is at every moment.
-/

namespace Asm68k.Resolver

open Line

/-! ### Sections -/

def spellingsOfB : List Bytes := ["b", "B"].map Bytes.ofString

/-- A long s counts as an s. -/
def spellingsOfS : List Bytes := ["s", "S", "ſ"].map Bytes.ofString

/-- `bss` in either case. -/
def reservedNames : List Bytes :=
  spellingsOfB.flatMap fun b => spellingsOfS.flatMap fun s => spellingsOfS.map fun t => b ++ s ++ t

/-- A section directive selects reserved memory: it has `BSS` in its name, or an operand begins
so. -/
def SelectsReserved (statement : Statement) : Prop :=
  (∃ directive ∈ statement.directive?, Bytes.ofString "BSS" <:+: directive.text) ∨
    ∃ operand ∈ statement.operands, ∃ name ∈ reservedNames, name <+: operand.text

instance (statement : Statement) : Decidable (SelectsReserved statement) :=
  inferInstanceAs (Decidable (_ ∨ _))

theorem toBytes_mem_spellingsOfB {r : Rune} (folds : Pattern.foldsTo 'b' r = true) :
    r.toBytes ∈ spellingsOfB := by
  simp [Pattern.foldsTo, Rune.isChar] at folds
  rcases folds with rfl | rfl <;> decide

theorem toBytes_mem_spellingsOfS {r : Rune} (folds : Pattern.foldsTo 's' r = true) :
    r.toBytes ∈ spellingsOfS := by
  simp [Pattern.foldsTo, Rune.isChar] at folds
  rcases folds with (rfl | rfl) | rfl <;> decide

theorem ofBytes_spellingsOfB {b : Bytes} (spells : b ∈ spellingsOfB) (rest : Bytes) :
    ∃ r, Pattern.foldsTo 'b' r = true ∧ Rune.ofBytes (b ++ rest) = r :: Rune.ofBytes rest := by
  simp only [spellingsOfB, List.map_cons, List.map_nil, List.mem_cons, List.not_mem_nil,
    or_false] at spells
  rcases spells with rfl | rfl
  · exact ⟨.scalar 'b', by decide, rfl⟩
  · exact ⟨.scalar 'B', by decide, rfl⟩

theorem ofBytes_spellingsOfS {s : Bytes} (spells : s ∈ spellingsOfS) (rest : Bytes) :
    ∃ r, Pattern.foldsTo 's' r = true ∧ Rune.ofBytes (s ++ rest) = r :: Rune.ofBytes rest := by
  simp only [spellingsOfS, List.map_cons, List.map_nil, List.mem_cons, List.not_mem_nil,
    or_false] at spells
  rcases spells with rfl | rfl | rfl
  · exact ⟨.scalar 's', by decide, rfl⟩
  · exact ⟨.scalar 'S', by decide, rfl⟩
  · exact ⟨.scalar 'ſ', by decide, rfl⟩

theorem describes_bssName_iff {runes : List Rune} :
    bssName.Describes runes ↔ ∃ b s t, Pattern.foldsTo 'b' b = true ∧
      Pattern.foldsTo 's' s = true ∧ Pattern.foldsTo 's' t = true ∧ runes = [b, s, t] := by
  have letters : bssName = .seq (.letter 'b') (.seq (.letter 's') (.letter 's')) := rfl
  simp only [letters, Pattern.letter, Pattern.describes_seq_iff, Pattern.describes_one_iff]
  constructor
  · rintro ⟨_, _, ⟨b, hb, rfl⟩, ⟨_, _, ⟨s, hs, rfl⟩, ⟨t, ht, rfl⟩, rfl⟩, rfl⟩
    exact ⟨b, s, t, hb, hs, ht, rfl⟩
  · rintro ⟨b, s, t, hb, hs, ht, rfl⟩
    exact ⟨[b], _, ⟨b, hb, rfl⟩, ⟨[s], [t], ⟨s, hs, rfl⟩, ⟨t, ht, rfl⟩, rfl⟩, rfl⟩

theorem mem_reservedNames {name : Bytes} : name ∈ reservedNames ↔
    ∃ b ∈ spellingsOfB, ∃ s ∈ spellingsOfS, ∃ t ∈ spellingsOfS, b ++ s ++ t = name := by
  simp only [reservedNames, List.mem_flatMap, List.mem_map]

theorem bssName_fitsFront_iff {text : Bytes} :
    bssName.fitsFront (Rune.ofBytes text) = true ↔ ∃ name ∈ reservedNames, name <+: text := by
  rw [Pattern.fitsFront_iff]
  constructor
  · rintro ⟨_, after, described, read⟩
    obtain ⟨b, s, t, hb, hs, ht, rfl⟩ := describes_bssName_iff.mp described
    refine ⟨b.toBytes ++ s.toBytes ++ t.toBytes, mem_reservedNames.mpr
      ⟨_, toBytes_mem_spellingsOfB hb, _, toBytes_mem_spellingsOfS hs, _,
        toBytes_mem_spellingsOfS ht, rfl⟩, after.flatMap Rune.toBytes, ?_⟩
    rw [Rune.eq_flatMap_of_ofBytes read]
    simp
  · rintro ⟨_, named, rest, rfl⟩
    obtain ⟨b, hb, s, hs, t, ht, rfl⟩ := mem_reservedNames.mp named
    obtain ⟨r₃, folds₃, read₃⟩ := ofBytes_spellingsOfS ht rest
    obtain ⟨r₂, folds₂, read₂⟩ := ofBytes_spellingsOfS hs (t ++ rest)
    obtain ⟨r₁, folds₁, read₁⟩ := ofBytes_spellingsOfB hb (s ++ (t ++ rest))
    refine ⟨[r₁, r₂, r₃], Rune.ofBytes rest,
      describes_bssName_iff.mpr ⟨r₁, r₂, r₃, folds₁, folds₂, folds₃, rfl⟩, ?_⟩
    rw [List.append_assoc, List.append_assoc, read₁, read₂, read₃]
    rfl

theorem selectsBss_nil {directive : Directive} (sectional : directive.isSection = true) :
    selectsBss directive [] = true ↔ Bytes.ofString "BSS" <:+: directive.text := by
  have checked : ∀ directive ∈ Directive.namedSection :: Directive.segments,
      (selectsBss directive [] = true ↔ Bytes.ofString "BSS" <:+: directive.text) := by
    decide +kernel
  apply checked
  cases directive with
  | namedSection => exact List.mem_cons_self
  | segment kind memory => cases kind <;> cases memory <;> simp [Directive.segments]
  | _ => cases sectional

theorem selectsBss_iff {statement : Statement} {directive : Directive}
    (spelled : statement.directive? = some directive) (sectional : directive.isSection = true) :
    selectsBss directive statement.operands = true ↔ SelectsReserved statement := by
  have parts : selectsBss directive statement.operands = (selectsBss directive [] ||
      statement.operands.any fun operand => bssName.fitsFront (Rune.ofBytes operand.text)) := by
    simp [selectsBss]
  rw [parts, Bool.or_eq_true, selectsBss_nil sectional, List.any_eq_true]
  simp only [bssName_fitsFront_iff, SelectsReserved, spelled, Option.mem_some_iff, exists_eq_left']

/-! ### Moments -/

/-- What a directive at an address gives its label as a value: the address, or the value of the first
operand in an assignment. Sections, blocks and macros give none. -/
def directiveValue? (symbols : Symbols) (address : Int64) (operands : List Operand) :
    Directive → Option Int64
  | .assign _ => operands.head?.bind fun o => Expression.value? (symbols[·]?) o.text
  | .namedSection | .segment _ _ | .beginMacro | .beginRepeat => none
  | _ => some address

/-- The value that a statement at an address gives its label when it is resolved. -/
def boundValue? (symbols : Symbols) (address : Int64) (statement : Statement) : Option Int64 :=
  match statement.opcode with
  | none | some ⟨.instruction _, _, _⟩ | some ⟨.invocation _, _, _⟩ => some address
  | some ⟨.directive directive, _, _⟩ =>
    directiveValue? symbols address statement.operands directive

namespace Moment

/-- The statement is not put into the body of a macro or a block, and it ends none. -/
def isResolved (m : Moment) : Bool := m.frame.pending matches .nothing

/-- The name that is bound at a moment and its value, from the symbols so far and the address. -/
def binding? (m : Moment) (symbols : Symbols) (address : Int64) : Option (Bytes × Int64) :=
  if m.isResolved then
    m.statement.label.bind fun label =>
      (boundValue? symbols address m.statement).map (label.name, ·)
  else none

/-- The symbols after a moment. -/
def bind (m : Moment) (symbols : Symbols) (address : Int64) : Symbols :=
  match m.binding? symbols address with
  | some (name, value) => symbols.insert name value
  | none => symbols

/-- A section directive is resolved. -/
def isSwitch (m : Moment) : Bool := m.isResolved && m.statement.directive?.any (·.isSection)

end Moment

/-- The leaves that some moments have come to. -/
def leavesOf (moments : List Moment) : List LineInfo := moments.filterMap (·.line.leaf?)

/-- The section directive that is resolved last. -/
def lastSwitch? (moments : List Moment) : Option Statement :=
  (moments.filter Moment.isSwitch).getLast?.map Moment.statement

/-- The symbols when the first of some moments comes; `last` are those after all of them. -/
def symbolsFrom (last : Symbols) : List Moment → Symbols
  | [] => last
  | m :: _ => m.state.symbols

/-! ### The flat machine -/

structure Flat where
  address : Int64
  bss : Bool
  symbols : Symbols

def Flat.after (flat : Flat) (m : Moment) : Flat where
  address := flat.address + extent m.line.leaf?.toList
  bss := if m.isSwitch then decide (SelectsReserved m.statement) else flat.bss
  symbols := m.bind flat.symbols flat.address

/-- Where the resolver is in a state. -/
def State.flat (s : State) (address : Int64) : Flat := ⟨address, s.bss, s.symbols⟩

def Moment.flat (m : Moment) : Flat := m.state.flat m.frame.address

/-- The machine walks over some moments and finds the resolver where it is itself. A leaf with bytes
lies in the section that it is in. -/
inductive Walks : Flat → List Moment → Flat → Prop where
  | nil (flat : Flat) : Walks flat [] flat
  | cons {m : Moment} {moments : List Moment} {last : Flat}
      (placed : ∀ info, m.line = .plain info → info.bytes ≠ 0 → info.bss = m.state.bss)
      (rest : Walks (m.flat.after m) moments last) : Walks m.flat (m :: moments) last

/-- The walk over some lines, by the moments that give them. -/
structure Walked (flat : Flat) (lines : List Line) (moments : List Moment) (last : Flat) :
    Prop where
  lines_eq : moments.map Moment.line = preorder lines
  texts : ∀ m ∈ moments, m.line.text = m.statement.text
  walks : Walks flat moments last
  rolledUp : RolledUp lines

/-- The moments inside the expansions are known. -/
def Follows (expand : Expander) (inside : Expansion → List Moment) : Prop :=
  ∀ ⦃address statements s lines s'⦄, expand address statements s = .ok lines s' →
    Walked (s.flat address) lines (inside ⟨address, statements, s⟩)
      (s'.flat (address + extent (leaves lines)))

theorem Walks.append {flat middle last : Flat} {xs ys : List Moment} (hx : Walks flat xs middle)
    (hy : Walks middle ys last) : Walks flat (xs ++ ys) last := by
  induction hx with
  | nil => exact hy
  | cons placed rest ih => exact .cons placed (ih hy)

theorem Walks.split {flat last : Flat} {before after : List Moment} {m : Moment}
    (h : Walks flat (before ++ m :: after) last) :
    m.flat = before.foldl Flat.after flat ∧
      (∀ info, m.line = .plain info → info.bytes ≠ 0 → info.bss = m.state.bss) ∧
      Walks (m.flat.after m) after last := by
  induction before generalizing flat with
  | nil =>
    cases h with
    | cons placed rest => exact ⟨rfl, placed, rest⟩
  | cons m' before ih =>
    cases h with
    | cons placed rest => exact ih rest

theorem Walks.symbols {flat last : Flat} {moments : List Moment} (h : Walks flat moments last) :
    symbolsFrom last.symbols moments = flat.symbols := by
  cases h <;> rfl

theorem Walked.refl (flat : Flat) : Walked flat [] [] flat :=
  ⟨rfl, by simp, .nil flat, rolledUp_nil⟩

theorem Walked.append {flat middle last : Flat} {xs ys : List Line} {ms ns : List Moment}
    (hx : Walked flat xs ms middle) (hy : Walked middle ys ns last) :
    Walked flat (xs ++ ys) (ms ++ ns) last where
  lines_eq := by rw [List.map_append, hx.lines_eq, hy.lines_eq, preorder_append]
  texts := List.forall_mem_append.mpr ⟨hx.texts, hy.texts⟩
  walks := hx.walks.append hy.walks
  rolledUp := rolledUp_append hx.rolledUp hy.rolledUp

theorem foldl_after_address (flat : Flat) (moments : List Moment) :
    (moments.foldl Flat.after flat).address = flat.address + extent (leavesOf moments) := by
  induction moments generalizing flat with
  | nil => simp [leavesOf]
  | cons m moments ih =>
    rw [List.foldl_cons, ih, Flat.after, Int64.add_assoc, ← extent_append]
    cases leaf : m.line.leaf? <;> simp [leavesOf, leaf]

theorem lastSwitch?_cons (m : Moment) (moments : List Moment) :
    lastSwitch? (m :: moments) =
      (lastSwitch? moments).or (if m.isSwitch then some m.statement else none) := by
  unfold lastSwitch?
  rw [List.filter_cons]
  split
  · rw [List.getLast?_cons]
    cases (moments.filter Moment.isSwitch).getLast? <;> rfl
  · rw [Option.or_none]

theorem foldl_after_bss (flat : Flat) (moments : List Moment) :
    (moments.foldl Flat.after flat).bss =
      ((lastSwitch? moments).map fun switch => decide (SelectsReserved switch)).getD flat.bss := by
  induction moments generalizing flat with
  | nil => rfl
  | cons m moments ih =>
    rw [List.foldl_cons, ih, lastSwitch?_cons, Flat.after]
    cases lastSwitch? moments with
    | some switch => rfl
    | none => split <;> rfl

/-! ### Steps -/

section

variable {settings : Settings} {expand : Expander} {inside : Expansion → List Moment}
  {frame : Frame} {statement : Statement} {line : Line} {s s' : State}

theorem isResolved_iff {m : Moment} : m.isResolved = true ↔ m.frame.pending = .nothing := by
  unfold Moment.isResolved
  cases m.frame.pending <;> simp

theorem isSwitch_iff {m : Moment} : m.isSwitch = true ↔ m.frame.pending = .nothing ∧
    ∃ directive, m.statement.directive? = some directive ∧ directive.isSection = true := by
  rw [Moment.isSwitch, Bool.and_eq_true, isResolved_iff, Option.any_eq_true]

theorem boundValue?_directive {directive : Directive} {symbols : Symbols} {address : Int64}
    (spelled : statement.directive? = some directive) :
    boundValue? symbols address statement =
      directiveValue? symbols address statement.operands directive := by
  obtain ⟨⟨operation, start, size⟩, here, ⟨rfl⟩⟩ := directive?_eq_some spelled
  rw [boundValue?, here]

theorem boundValue?_invocation {opcode : Opcode} {name : Bytes} {symbols : Symbols}
    {address : Int64} (spelled : statement.opcode = some opcode)
    (invokes : opcode.operation = .invocation name) :
    boundValue? symbols address statement = some address := by
  obtain ⟨operation, start, size⟩ := opcode
  cases invokes
  rw [boundValue?, spelled]

theorem IsPlain.boundValue? {symbols : Symbols} {address : Int64} (own : IsPlain statement)
    (labelled : statement.label.isSome = true) :
    boundValue? symbols address statement = some address := by
  unfold IsPlain at own
  unfold Resolver.boundValue?
  split
  · rfl
  · rfl
  · rfl
  · rename_i directive start size spelled
    rw [spelled] at own
    cases directive with
    | assign spelling =>
      rw [own] at labelled
      cases labelled
    | beginMacro => exact absurd rfl own.1
    | beginRepeat => exact absurd rfl own.2.1
    | namedSection | segment => cases own.2.2
    | _ => rfl

theorem IsPlain.isSection_eq_false (own : IsPlain statement) :
    ∀ directive ∈ statement.directive?, directive.isSection = false := by
  intro directive spelled
  obtain ⟨⟨operation, start, size⟩, here, ⟨rfl⟩⟩ := directive?_eq_some spelled
  unfold IsPlain at own
  rw [here] at own
  cases directive with
  | namedSection | segment => exact own.2.2
  | _ => rfl

theorem isSwitch_of_collecting {m : Moment} (collecting : m.frame.pending ≠ .nothing) :
    m.isSwitch = false := by
  rw [Bool.eq_false_iff]
  exact fun switches => collecting (isSwitch_iff.mp switches).1

theorem isSwitch_of_ordinary {m : Moment}
    (ordinary : ∀ directive ∈ m.statement.directive?, directive.isSection = false) :
    m.isSwitch = false := by
  rw [Bool.eq_false_iff]
  intro switches
  obtain ⟨-, directive, spelled, sectional⟩ := isSwitch_iff.mp switches
  rw [ordinary directive spelled] at sectional
  cases sectional

theorem ordinary_of_spelled {directive : Directive} (spelled : statement.directive? = some directive)
    (ordinary : directive.isSection = false) :
    ∀ directive ∈ statement.directive?, directive.isSection = false := by
  intro other same
  rw [spelled] at same
  cases same
  exact ordinary

theorem ordinary_of_invocation {opcode : Opcode} {name : Bytes}
    (spelled : statement.opcode = some opcode) (invokes : opcode.operation = .invocation name) :
    ∀ directive ∈ statement.directive?, directive.isSection = false := by
  rw [directive?_eq_none spelled (by simp [invokes])]
  intro directive impossible
  cases impossible

/-- Only a section directive that is resolved moves the machine to another section, and only a label
that gets a value changes its symbols. -/
theorem after_still (still : Moment.isSwitch ⟨frame, statement, s, line⟩ = false)
    (unbound : frame.pending = .nothing → statement.label = none ∨
      boundValue? s.symbols frame.address statement = none) :
    (s.flat frame.address).after ⟨frame, statement, s, line⟩ =
      s.flat (frame.address + extent line.leaf?.toList) := by
  have nothing : Moment.binding? ⟨frame, statement, s, line⟩ s.symbols frame.address = none := by
    unfold Moment.binding?
    split
    · rename_i resolved
      rcases unbound (isResolved_iff.mp resolved) with absent | absent <;> simp [absent]
    · rfl
  simp [Flat.after, State.flat, Moment.bind, still, nothing]

theorem after_labelled (idle : frame.pending = .nothing)
    (ordinary : ∀ directive ∈ statement.directive?, directive.isSection = false)
    (places : statement.label.isSome → boundValue? s.symbols frame.address statement =
      some frame.address) :
    (s.flat frame.address).after ⟨frame, statement, s, line⟩ =
      (s.labelled frame.address statement).flat (frame.address + extent line.leaf?.toList) := by
  have still : Moment.isSwitch ⟨frame, statement, s, line⟩ = false := isSwitch_of_ordinary ordinary
  have resolved : Moment.isResolved ⟨frame, statement, s, line⟩ = true := isResolved_iff.mpr idle
  unfold State.labelled
  cases labelled : statement.label with
  | none => exact after_still still fun _ => .inl labelled
  | some label =>
    rw [labelled] at places
    simp [Flat.after, State.flat, Moment.bind, Moment.binding?, still, resolved, labelled,
      places rfl]

theorem after_assigned {spelling : Assignment} {label : Label} (idle : frame.pending = .nothing)
    (spelled : statement.directive? = some (.assign spelling))
    (labelled : statement.label = some label) :
    (s.flat frame.address).after ⟨frame, statement, s, line⟩ =
      (s.assigned label statement).flat (frame.address + extent line.leaf?.toList) := by
  have still : Moment.isSwitch ⟨frame, statement, s, line⟩ = false :=
    isSwitch_of_ordinary (ordinary_of_spelled spelled rfl)
  have resolved : Moment.isResolved ⟨frame, statement, s, line⟩ = true := isResolved_iff.mpr idle
  have value : boundValue? s.symbols frame.address statement =
      statement.operands.head?.bind fun o => Expression.value? (s.symbols[·]?) o.text :=
    boundValue?_directive spelled
  unfold State.assigned
  split
  · rename_i found
    rw [found] at value
    simp [Flat.after, State.flat, Moment.bind, Moment.binding?, still, resolved, labelled, value]
  · rename_i absent
    exact after_still still fun _ => .inr (value.trans absent)

theorem after_switched {directive : Directive} (idle : frame.pending = .nothing)
    (spelled : statement.directive? = some directive) (sectional : directive.isSection = true) :
    (s.flat frame.address).after ⟨frame, statement, s, line⟩ =
      (s.switched (selectsBss directive statement.operands)).flat
        (frame.address + extent line.leaf?.toList) := by
  have switches : Moment.isSwitch ⟨frame, statement, s, line⟩ = true :=
    isSwitch_iff.mpr ⟨idle, directive, spelled, sectional⟩
  have unbound : boundValue? s.symbols frame.address statement = none := by
    rw [boundValue?_directive spelled]
    cases directive with
    | namedSection | segment => rfl
    | _ => cases sectional
  have selected : decide (SelectsReserved statement) = selectsBss directive statement.operands := by
    rw [Bool.eq_iff_iff, decide_eq_true_iff, selectsBss_iff spelled sectional]
  simp [Flat.after, State.flat, Moment.bind, Moment.binding?, switches, unbound, selected,
    State.switched]

theorem walked_leaf {info : LineInfo} {t : State} (text : info.text = statement.text)
    (placed : info.bytes ≠ 0 → info.bss = s.bss)
    (after : (s.flat frame.address).after ⟨frame, statement, s, .plain info⟩ =
      t.flat (frame.address + extent (Line.plain info).leaf?.toList)) :
    Walked (s.flat frame.address) [.plain info] [⟨frame, statement, s, .plain info⟩]
      (t.flat (frame.address + (Line.plain info).bytes)) where
  lines_eq := rfl
  texts m member := by
    obtain rfl := List.mem_singleton.mp member
    exact text
  walks := by
    have own : extent (Line.plain info).leaf?.toList = (Line.plain info).bytes :=
      Int64.add_zero info.bytes
    rw [← own, ← after]
    refine .cons (m := ⟨frame, statement, s, .plain info⟩) ?_ (.nil _)
    intro _ same
    cases same
    exact placed
  rolledUp := rolledUp_plain info

theorem walked_blank {t : State}
    (after : (s.flat frame.address).after ⟨frame, statement, s, .blank statement.text⟩ =
      t.flat (frame.address + extent (Line.blank statement.text).leaf?.toList)) :
    Walked (s.flat frame.address) [.blank statement.text]
      [⟨frame, statement, s, .blank statement.text⟩]
      (t.flat (frame.address + (Line.blank statement.text).bytes)) :=
  walked_leaf rfl (fun bytes => absurd rfl bytes) after

theorem walked_expansion {body : List Line} {bss : Bool} {moments : List Moment} {t : State}
    {last : Flat}
    (after : (s.flat frame.address).after
      ⟨frame, statement, s, .ofExpansion statement.text bss body⟩ = t.flat (frame.address + 0))
    (inner : Walked (t.flat frame.address) body moments last) :
    Walked (s.flat frame.address) [.ofExpansion statement.text bss body]
      (⟨frame, statement, s, .ofExpansion statement.text bss body⟩ :: moments) last where
  lines_eq := by
    rw [List.map_cons, inner.lines_eq]
    simp [preorder, linePreorder, ofExpansion]
  texts := List.forall_mem_cons.mpr ⟨rfl, inner.texts⟩
  walks := by
    have inside := inner.walks
    rw [← Int64.add_zero frame.address, ← after] at inside
    refine .cons (m := ⟨frame, statement, s, .ofExpansion statement.text bss body⟩) ?_ inside
    intro _ leaf
    cases leaf
  rolledUp := rolledUp_ofExpansion _ _ inner.rolledUp

theorem copyExpansions_walked (follows : Follows expand inside) {body : List Statement}
    {count : Nat} {address : Int64} {copies result : List (List Line)}
    (run : repeatFrom expand body count address copies s = .ok result s') :
    ∃ later : List (List Line), result = later.reverse ++ copies ∧
      Walked (s.flat address) later.flatten
        ((copyExpansions expand body count address s).flatMap inside)
        (s'.flat (address + extent (leaves later.flatten))) := by
  induction count generalizing s address copies with
  | zero =>
    obtain ⟨rfl, rfl⟩ := pure_ok run
    refine ⟨[], rfl, ?_⟩
    rw [List.flatten_nil, leaves, extent_nil, Int64.add_zero]
    exact .refl _
  | succ count ih =>
    obtain ⟨lines, t, expanded, run⟩ := bind_ok run
    obtain ⟨later, rfl, rest⟩ := ih run
    refine ⟨lines :: later, by simp, ?_⟩
    -- The next copy begins where the leaves of this one end.
    rw [bytes_ofLines] at rest
    rw [copyExpansions, expanded, List.flatMap_cons, List.flatten_cons, leaves_append,
      extent_append, ← Int64.add_assoc]
    dsimp only
    rw [bytes_ofLines]
    exact (follows expanded).append rest

theorem Stepped.walked (follows : Follows expand inside)
    (h : Stepped settings expand frame statement s line s') :
    Walked (s.flat frame.address) [line]
      (⟨frame, statement, s, line⟩ :: (stepExpansions expand frame statement s).flatMap inside)
      (s'.flat (frame.address + line.bytes)) := by
  cases h with
  | collected collecting unfinished =>
    rw [stepExpansions_collected collecting unfinished]
    exact walked_blank (after_still (isSwitch_of_collecting collecting) fun idle =>
      absurd idle collecting)
  | macroEnded collecting ends =>
    have busy : frame.pending ≠ .nothing := by simp [collecting]
    have none : stepExpansions expand frame statement s = [] := by
      rw [stepExpansions, collecting]
    rw [none]
    exact walked_blank (t := s) (after_still (isSwitch_of_collecting busy) fun idle =>
      absurd idle busy)
  | @repeatEnded start body copies s' collecting ends run =>
    have busy : frame.pending ≠ .nothing := by simp [collecting]
    obtain ⟨later, rfl, inner⟩ := copyExpansions_walked follows run
    rw [stepExpansions_repeatEnded collecting ends, List.append_nil, List.reverse_reverse,
      bytes_ofExpansion]
    exact walked_expansion (after_still (isSwitch_of_collecting busy) fun idle =>
      absurd idle busy) inner
  | blank idle inert =>
    rcases inert with ⟨empty, unlabelled⟩ | ⟨begins, -⟩ | begins
    · have undirected : statement.directive? = none := by rw [Statement.directive?, empty]
      rw [stepExpansions_idle idle (by simp [empty])]
      exact walked_blank (after_still (isSwitch_of_ordinary (by simp [undirected])) fun _ =>
        .inl unlabelled)
    all_goals
      rw [stepExpansions_idle idle (no_invocation_of_directive begins)]
      exact walked_blank (after_still (isSwitch_of_ordinary (ordinary_of_spelled begins rfl))
        fun _ => .inr (boundValue?_directive begins))
  | macroBegun idle begins named =>
    rw [stepExpansions_idle idle (no_invocation_of_directive begins)]
    exact walked_blank (t := s) (after_still (isSwitch_of_ordinary (ordinary_of_spelled begins rfl))
      fun _ => .inr (boundValue?_directive begins))
  | plain idle own =>
    rw [stepExpansions_idle idle own.no_invocation]
    exact walked_leaf rfl (fun _ => s.labelled_bss _ _)
      (after_labelled idle own.isSection_eq_false own.boundValue?)
  | assigned idle spelled labelled =>
    rw [stepExpansions_idle idle (no_invocation_of_directive spelled)]
    exact walked_blank (after_assigned idle spelled labelled)
  | switched idle spelled sectional =>
    rw [stepExpansions_idle idle (no_invocation_of_directive spelled)]
    exact walked_blank (after_switched idle spelled sectional)
  | ignored idle spelled invokes unknown after =>
    rw [stepExpansions_invocation idle spelled invokes, unknown]
    rcases after with rfl | rfl
    all_goals
      exact walked_blank (after_labelled idle (ordinary_of_invocation spelled invokes) fun _ =>
        boundValue?_invocation spelled invokes)
  | invoked idle spelled invokes known run =>
    rw [stepExpansions_invocation idle spelled invokes, known, bytes_ofExpansion]
    simp only [Option.toList_some, List.map_cons, List.map_nil, List.flatMap_cons, List.flatMap_nil,
      List.append_nil]
    exact walked_expansion (after_labelled idle (ordinary_of_invocation spelled invokes) fun _ =>
      boundValue?_invocation spelled invokes) (follows run)

/-! ### Runs -/

theorem Runs.walked (follows : Follows expand inside) {last : Frame} {statements : List Statement}
    {lines : List Line} (run : Runs settings expand frame statements s lines last s') :
    Walked (s.flat frame.address) lines (momentsFrom settings expand inside frame statements s)
      (s'.flat last.address) := by
  induction run with
  | nil frame s => exact .refl _
  | cons stepped rest ih =>
    rw [momentsFrom_cons stepped, ← List.singleton_append]
    exact ((step_stepped stepped).1.walked follows).append ih

theorem State.finished_flat (s : State) (pending : Pending) (address : Int64) :
    (s.finished pending).flat address = s.flat address := by
  cases pending <;> rfl

theorem expandAt_follows (settings : Settings) (levels : Nat) :
    Follows (expandAt settings levels) (momentsIn settings levels) := by
  induction levels with
  | zero =>
    intro address statements s lines s' expanded
    obtain ⟨inner, _, _, levels, _⟩ := expandAt_runs expanded
    cases levels
  | succ levels ih =>
    intro address statements s lines s' expanded
    obtain ⟨_, last, t, ⟨rfl⟩, run, rfl⟩ := expandAt_runs expanded
    rw [State.finished_flat, ← run.address]
    exact run.walked ih

end

/-- A pass walks over all its lines, from the first address and outside reserved memory. -/
theorem pass_walked {limits : Limits} {patience : Option Nat} {number : Nat} {isLastPass : Bool}
    {statements : List Statement} {lines : List Line} {s s' : State}
    (h : pass limits patience number isLastPass statements s = .ok lines s') :
    ∃ address, Walked ⟨0, false, s.symbols⟩ lines
      (passMoments limits patience number isLastPass statements s) (s'.flat address) := by
  obtain ⟨last, t, run, rfl⟩ := pass_passes h
  refine ⟨last.address, ?_⟩
  rw [State.finished_flat]
  exact run.walked (expandAt_follows _ _)

/-- The nested frames behave like one flat machine. There is one line for each source line, and the
line of an expansion has the bytes of the lines directly below it and of its leaves. The moments of
the second pass are the walk over these lines. At each of them the address is the number of bytes of
the leaves before it; a label that is bound then gets this address, or the value that is assigned to
it, and nothing else changes the symbols. A leaf with bytes lies in reserved memory exactly if the
section directive that was resolved last before it selects that. -/
theorem resolve_flat {limits : Limits} {patience : Option Nat} {source : Bytes}
    {lines : List Line} {outcome : Outcome} {moments : List Moment}
    (resolved : resolve limits patience source = outcome) (h : outcome.result = .ok lines)
    (reached : resolveMoments limits patience source = moments) :
    lines.map Line.text = source.lines ∧
    (∀ info body, Occurs (.expanded info body) lines →
      info.bytes = (body.map Line.bytes).sum ∧ info.bytes = extent (leaves body)) ∧
    moments.map Moment.line = preorder lines ∧ leavesOf moments = leaves lines ∧
    (∀ m ∈ moments, m.statement = .ofLine m.line.text) ∧
    (∃ first s, pass limits patience 1 false (statements source) .initial = .ok first s ∧
      symbolsFrom outcome.symbols moments = s.symbols) ∧
    ∀ before m after, moments = before ++ m :: after →
      m.frame.address = extent (leavesOf before) ∧
      symbolsFrom outcome.symbols after = m.bind m.state.symbols (extent (leavesOf before)) ∧
      ∀ info, m.line = .plain info → info.bytes ≠ 0 →
        (info.bss = true ↔
          ∃ switch, lastSwitch? before = some switch ∧ SelectsReserved switch) := by
  subst resolved
  obtain ⟨first, s, s', one, two, outcome⟩ := resolve_ok h
  obtain ⟨address, walked⟩ := pass_walked two
  have second : moments = passMoments limits patience 2 true (statements source) s := by
    rw [← reached, resolveMoments, one]
  rw [← second] at walked
  rw [outcome]
  refine ⟨?_, ?_, walked.lines_eq, ?_, ?_, ⟨first, s, one, walked.walks.symbols⟩, ?_⟩
  · obtain ⟨last, t, run, -⟩ := pass_passes two
    rw [run.texts, statements, List.map_map]
    exact List.map_id _
  · intro info body occurs
    have inner : RolledUp body := fun deeper lines below =>
      walked.rolledUp deeper lines (occurs.trans below)
    rw [sum_bytes_eq_extent inner]
    exact ⟨walked.rolledUp info body occurs, walked.rolledUp info body occurs⟩
  · rw [← filterMap_preorder, ← walked.lines_eq, List.filterMap_map]
    rfl
  · intro m member
    rw [walked.texts m member]
    exact spelled_resolveMoments limits patience source m (reached ▸ member)
  · intro before m after split
    have walks := walked.walks
    rw [split] at walks
    obtain ⟨here, placed, later⟩ := walks.split
    have address := foldl_after_address ⟨0, false, s.symbols⟩ before
    have bss := foldl_after_bss ⟨0, false, s.symbols⟩ before
    rw [← here, Int64.zero_add] at address
    rw [← here] at bss
    refine ⟨address, ?_, fun info leaf bytes => ?_⟩
    · rw [← address]
      exact later.symbols
    · rw [placed info leaf bytes, show m.state.bss = _ from bss]
      cases lastSwitch? before <;> simp

/-- A macro that holds a block and changes the section, invoked with a label in a block. -/
def blockInMacroInBlock : Bytes :=
  Bytes.join ['\n'.toUInt8]
    (["m macro", " rept 2", "in dc.b \\1,0", " endr", " bss", " endm", " rept 2", "out m 7",
      " dc.w 1", " endr", "last"].map Bytes.ofString)

theorem resolve_flat_blockInMacroInBlock :
    ∃ lines, (resolve .standard none blockInMacroInBlock).result = .ok lines ∧
      (resolveMoments .standard none blockInMacroInBlock).filterMap
          (fun m => m.binding? m.state.symbols m.frame.address) =
        [("out", 0), ("in", 0), ("in", 2), ("out", 6), ("in", 6), ("in", 8), ("last", 12)].map
          (Prod.map Bytes.ofString id) ∧
      ((leaves lines).filter (·.bytes ≠ 0)).map (·.bss) = [false, false, true, true, true, true] ∧
      lines.map Line.text = blockInMacroInBlock.lines ∧
      ∀ before m after, resolveMoments .standard none blockInMacroInBlock = before ++ m :: after →
        m.frame.address = extent (leavesOf before) := by
  obtain ⟨resolved, bindings, sections⟩ :
      (resolve .standard none blockInMacroInBlock).result.isOk = true ∧
      (resolveMoments .standard none blockInMacroInBlock).filterMap
          (fun m => m.binding? m.state.symbols m.frame.address) =
        [("out", 0), ("in", 0), ("in", 2), ("out", 6), ("in", 6), ("in", 8), ("last", 12)].map
          (Prod.map Bytes.ofString id) ∧
      ((leavesOf (resolveMoments .standard none blockInMacroInBlock)).filter
        (·.bytes ≠ 0)).map (·.bss) = [false, false, true, true, true, true] := by
    decide +kernel
  obtain ⟨lines, h⟩ := exists_ok resolved
  obtain ⟨texts, -, -, leaves_eq, -, -, flat⟩ := resolve_flat rfl h rfl
  refine ⟨lines, h, bindings, ?_, texts, fun before m after split => (flat before m after split).1⟩
  rw [← leaves_eq]
  exact sections

end Asm68k.Resolver
