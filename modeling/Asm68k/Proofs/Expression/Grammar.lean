import Asm68k.Proofs.Expression.Sorting

/-!
The grammar of expressions. The yard decides by one flag and its stack, yet on items as they are
read it accepts what the grammar derives and nothing else, and the program it gives has an operand
for every operator: `compile_derived`, `derives_of_compile` and `run_compiled`.
-/

namespace Asm68k.Expression

inductive Category where
  | expression
  | operand
  | primary

/-- An expression is operands with binary operators between them, an operand is a primary with
unary operators in front, and a primary is a value, a symbol or an expression in parentheses. -/
inductive Derives : Category → List Item → Prop
  | value (v : Int64) : Derives .primary [.value v]
  | symbol (name : Bytes) : Derives .primary [.symbol name]
  | group {items} (inner : Derives .expression items) :
    Derives .primary (.opening :: items ++ [.closing])
  | plain {items} (inner : Derives .primary items) : Derives .operand items
  | signed {items} (op : UnaryOp) (inner : Derives .operand items) :
    Derives .operand (.operator (.unary op) :: items)
  | single {items} (inner : Derives .operand items) : Derives .expression items
  | joined {items items'} (op : BinaryOp) (before : Derives .expression items)
      (after : Derives .operand items') :
    Derives .expression (items ++ .operator (.binary op) :: items')

/-! ### Trees of derivations -/

/-- One more operator and operand: they go below the operators of the right edge that bind less
tightly. -/
theorem Arranged.extend {tier : Nat} {tree part : Tree} {items items' : List Item}
    (arranged : Arranged tier tree items) (op : BinaryOp) (loose : tier ≤ op.tier)
    (operand : ∀ tier, Arranged tier part items') :
    ∃ tree', Arranged tier tree' (items ++ .operator (.binary op) :: items') := by
  induction arranged with
  | literal => exact ⟨_, .binary loose .literal (operand _)⟩
  | symbol => exact ⟨_, .binary loose .symbol (operand _)⟩
  | unary inner => exact ⟨_, .binary loose (.unary inner) (operand _)⟩
  | group inner => exact ⟨_, .binary loose (.group inner) (operand _)⟩
  | @binary tier op' left right xs ys loose' before after ihLeft ihRight =>
    by_cases tighter : op'.tier < op.tier
    · obtain ⟨right', arranged'⟩ := ihRight tighter
      refine ⟨.binary op' left right', ?_⟩
      rw [List.append_assoc, List.cons_append]
      exact .binary loose' before arranged'
    · exact ⟨_, .binary loose (.binary (by omega) before after) (operand _)⟩

theorem Derives.arranged {category : Category} {items : List Item}
    (derives : Derives category items) :
    ∃ tree, match category with
      | .expression => Arranged 1 tree items
      | .operand | .primary => ∀ tier, Arranged tier tree items := by
  induction derives with
  | value v => exact ⟨.literal v, fun _ => .literal⟩
  | symbol name => exact ⟨.symbol name, fun _ => .symbol⟩
  | group inner ih =>
    obtain ⟨tree, arranged⟩ := ih
    exact ⟨tree, fun _ => .group arranged⟩
  | plain inner ih => exact ih
  | signed op inner ih =>
    obtain ⟨tree, arranged⟩ := ih
    exact ⟨.unary op tree, fun _ => .unary (arranged _)⟩
  | single inner ih =>
    obtain ⟨tree, arranged⟩ := ih
    exact ⟨tree, arranged 1⟩
  | joined op before after ihBefore ihAfter =>
    obtain ⟨tree, arranged⟩ := ihBefore
    obtain ⟨part, operand⟩ := ihAfter
    exact arranged.extend op (by cases op <;> decide) operand

theorem Arranged.mem_names {tier : Nat} {tree : Tree} {items : List Item}
    (arranged : Arranged tier tree items) {name : Bytes} (member : name ∈ tree.names) :
    Item.symbol name ∈ items := by
  induction arranged with
  | literal => cases member
  | symbol =>
    obtain rfl := List.mem_singleton.mp member
    exact List.mem_singleton.mpr rfl
  | unary inner ih => exact List.mem_cons_of_mem _ (ih member)
  | binary loose before after ihLeft ihRight =>
    rcases List.mem_append.mp member with left | right
    · exact List.mem_append_left _ (ihLeft left)
    · exact List.mem_append_right _ (List.mem_cons_of_mem _ (ihRight right))
  | group inner ih =>
    exact List.mem_append_left _ (List.mem_cons_of_mem _ (ih member))

/-- All symbols among the items have a value. -/
def Known (symbols : Bytes → Option Int64) (items : List Item) : Prop :=
  ∀ name, Item.symbol name ∈ items → (symbols name).isSome = true

section

variable {symbols : Bytes → Option Int64} {items : List Item}

theorem compile_derived (derives : Derives .expression items) (known : Known symbols items) :
    ∃ tree : Tree, compile symbols items = .ok (tree.program symbols) := by
  obtain ⟨tree, arranged⟩ := derives.arranged
  have nothing : tree.missing? symbols = none := by
    apply List.find?_eq_none.mpr
    intro name member absent
    have present := known name (arranged.mem_names member)
    rw [Option.isNone_iff_eq_none.mp absent] at present
    cases present
  exact ⟨tree, by rw [compile_arranged arranged, nothing]⟩

/-! ### What the flag and the stack know -/

/-- A part between two parentheses so far: an expression after a value, and else something that an
operand completes. -/
def Front (afterValue : Bool) (items : List Item) : Prop :=
  match afterValue with
  | true => Derives .expression items
  | false => ∀ operand, Derives .operand operand → Derives .expression (items ++ operand)

/-- The items so far, with some groups still open. Each group began where an operand was due. -/
inductive Progress : Nat → Bool → List Item → Prop
  | outermost {afterValue items} (front : Front afterValue items) : Progress 0 afterValue items
  | inside {groups afterValue outer items} (before : Progress groups false outer)
      (front : Front afterValue items) :
    Progress (groups + 1) afterValue (outer ++ .opening :: items)

theorem Progress.append {groups : Nat} {afterValue afterValue' : Bool} {more : List Item}
    (progress : Progress groups afterValue items)
    (grow : ∀ items, Front afterValue items → Front afterValue' (items ++ more)) :
    Progress groups afterValue' (items ++ more) := by
  cases progress with
  | outermost front => exact .outermost (grow _ front)
  | inside before front =>
    rw [List.append_assoc, List.cons_append]
    exact .inside before (grow _ front)

theorem Progress.operand {groups : Nat} {more : List Item} (progress : Progress groups false items)
    (derives : Derives .operand more) : Progress groups true (items ++ more) :=
  progress.append fun _ front => front more derives

theorem front_nil : Front false [] := fun _ derives => .single derives

end

namespace Yard

variable {symbols : Bytes → Option Int64}

def openGroups (waiting : List (Option Operator)) : Nat := waiting.count none

@[simp] theorem openGroups_some (op : Operator) (waiting : List (Option Operator)) :
    openGroups (some op :: waiting) = openGroups waiting := by
  simp [openGroups]

@[simp] theorem openGroups_none (waiting : List (Option Operator)) :
    openGroups (none :: waiting) = openGroups waiting + 1 := by
  simp [openGroups]

theorem collapse_openGroups (rank : Nat) (output : List Instruction)
    (waiting : List (Option Operator)) :
    openGroups (collapse rank output waiting).2 = openGroups waiting := by
  induction waiting generalizing output with
  | nil => rfl
  | cons top waiting ih =>
    cases top with
    | none => rfl
    | some op =>
      rw [collapse]
      split
      · rw [ih, openGroups_some]
      · rfl

theorem closeGroup_openGroups {output output' : List Instruction}
    {waiting waiting' : List (Option Operator)}
    (h : closeGroup output waiting = some (output', waiting')) :
    openGroups waiting = openGroups waiting' + 1 := by
  induction waiting generalizing output with
  | nil => cases h
  | cons top waiting ih =>
    cases top with
    | none =>
      cases h
      exact openGroups_none _
    | some op => rw [openGroups_some, ih h]

theorem drain_openGroups {output output' : List Instruction} {waiting : List (Option Operator)}
    (h : drain output waiting = some output') : openGroups waiting = 0 := by
  induction waiting generalizing output with
  | nil => rfl
  | cons top waiting ih =>
    cases top with
    | none => cases h
    | some op => rw [openGroups_some, ih h]

theorem pushValue_ok {yard yard' : Yard} {v : Int64} (h : yard.pushValue v = .ok yard') :
    yard.afterValue = false ∧ yard'.afterValue = true ∧ yard'.waiting = yard.waiting := by
  unfold pushValue at h
  split at h
  · cases h
  · rename_i due
    cases h
    exact ⟨Bool.not_eq_true _ ▸ due, rfl, rfl⟩

/-- What is known between two items: the yard agrees with the reader on whether a value precedes,
and the items so far can be completed. -/
structure Tracks (yard : Yard) (afterValue : Bool) (done : List Item) : Prop where
  flag : yard.afterValue = afterValue
  progress : Progress (openGroups yard.waiting) afterValue done

theorem Tracks.step {yard yard' : Yard} {afterValue : Bool} {done : List Item} {item : Item}
    (tracks : Tracks yard afterValue done)
    (due : ∀ op, item = .operator (.unary op) → afterValue = false)
    (h : yard.step symbols item = .ok yard') :
    Tracks yard' item.endsValue (done ++ [item]) ∧ Known symbols [item] := by
  obtain ⟨flag, progress⟩ := tracks
  have other (different : ∀ name, item ≠ .symbol name) : Known symbols [item] := by
    intro name member
    exact absurd (List.mem_singleton.mp member).symm (different name)
  cases item with
  | value v =>
    obtain ⟨before, after, waiting⟩ := pushValue_ok h
    rw [← flag, before] at progress
    refine ⟨⟨after, ?_⟩, other nofun⟩
    rw [waiting]
    exact progress.operand (.plain (.value v))
  | symbol name =>
    unfold Yard.step at h
    dsimp only at h
    cases found : symbols name with
    | none =>
      rw [found] at h
      cases h
    | some v =>
      rw [found] at h
      obtain ⟨before, after, waiting⟩ := pushValue_ok h
      rw [← flag, before] at progress
      refine ⟨⟨after, ?_⟩, ?_⟩
      · rw [waiting]
        exact progress.operand (.plain (.symbol name))
      · intro name' member
        cases List.mem_singleton.mp member
        rw [found]
        rfl
  | operator op =>
    cases op with
    | unary op =>
      cases due op rfl
      cases h
      refine ⟨⟨rfl, ?_⟩, other nofun⟩
      rw [openGroups_some]
      refine progress.append fun items front operand derives => ?_
      rw [List.append_assoc]
      exact front _ (.signed op derives)
    | binary op =>
      unfold Yard.step pushOperator at h
      dsimp only at h
      split at h
      · rename_i after
        cases h
        refine ⟨⟨rfl, ?_⟩, other nofun⟩
        rw [openGroups_some, collapse_openGroups]
        rw [← flag, after] at progress
        refine progress.append fun items front operand derives => ?_
        rw [List.append_assoc]
        exact .joined op front derives
      · cases h
  | opening =>
    unfold Yard.step at h
    dsimp only at h
    split at h
    · cases h
    · rename_i before
      cases h
      rw [Bool.not_eq_true] at before
      refine ⟨⟨before, ?_⟩, other nofun⟩
      rw [← flag, before] at progress
      rw [openGroups_none]
      exact .inside progress front_nil
  | closing =>
    unfold Yard.step at h
    dsimp only at h
    split at h
    · rename_i after
      split at h
      · cases h
      · rename_i output waiting closed
        cases h
        refine ⟨⟨after, ?_⟩, other nofun⟩
        rw [closeGroup_openGroups closed, ← flag, after] at progress
        -- The group is complete, so it is an operand where it began.
        cases progress with
        | @inside _ _ outer items before front =>
          have whole := before.operand (.plain (.group front))
          rw [List.append_assoc]
          exact whole
    · cases h
  | bad error => cases h

/-- Unary operators stand where an operand is due; the flag says whether a value precedes. -/
def Consistent : Bool → List Item → Prop
  | _, [] => True
  | afterValue, item :: items =>
    (∀ op, item = .operator (.unary op) → afterValue = false) ∧ Consistent item.endsValue items

theorem Tracks.steps {yard yard' : Yard} {afterValue : Bool} {done items : List Item}
    (tracks : Tracks yard afterValue done) (consistent : Consistent afterValue items)
    (h : yard.steps symbols items = .ok yard') :
    Tracks yard' yard'.afterValue (done ++ items) ∧ Known symbols items := by
  induction items generalizing yard afterValue done with
  | nil =>
    cases h
    rw [List.append_nil, tracks.flag]
    exact ⟨tracks, fun name member => nomatch member⟩
  | cons item items ih =>
    rw [Yard.steps] at h
    cases here : yard.step symbols item with
    | error e =>
      rw [here] at h
      cases h
    | ok next =>
      rw [here] at h
      obtain ⟨after, known⟩ := tracks.step consistent.1 here
      obtain ⟨last, others⟩ := ih after consistent.2 h
      rw [List.append_assoc] at last
      refine ⟨last, fun name member => ?_⟩
      rcases List.mem_cons.mp member with rfl | later
      · exact known name (List.mem_singleton.mpr rfl)
      · exact others name later

theorem tracks_initial : Tracks .initial false [] := ⟨rfl, .outermost front_nil⟩

end Yard

/-! ### Acceptance -/

theorem derives_of_compile {symbols : Bytes → Option Int64} {items : List Item}
    {program : List Instruction} (consistent : Yard.Consistent false items)
    (h : compile symbols items = .ok program) :
    Derives .expression items ∧ Known symbols items := by
  unfold compile at h
  cases run : Yard.initial.steps symbols items with
  | error e =>
    rw [run] at h
    cases h
  | ok yard =>
    rw [run] at h
    change yard.finish = .ok program at h
    obtain ⟨⟨-, progress⟩, known⟩ := Yard.tracks_initial.steps consistent run
    rw [List.nil_append] at progress
    unfold Yard.finish at h
    split at h
    · rename_i after
      split at h
      · cases h
      · rename_i drained
        rw [Yard.drain_openGroups drained, after] at progress
        cases progress with
        | outermost front => exact ⟨front, known⟩
    · cases h

theorem run_program (symbols : Bytes → Option Int64) (tree : Tree) :
    run (tree.program symbols) =
      if tree.dividesByZero symbols then .error .divisionByZero
      else .ok (tree.value symbols) := by
  have ran := tree.runFrom_program symbols [] []
  rw [List.append_nil] at ran
  rw [run, ran]
  cases tree.dividesByZero symbols <;> rfl

/-- The machine has its operands at hand and ends with one value, unless it divides by zero. -/
theorem run_compiled {symbols : Bytes → Option Int64} {items : List Item}
    {program : List Instruction} (consistent : Yard.Consistent false items)
    (h : compile symbols items = .ok program) :
    (∃ v, run program = .ok v) ∨ run program = .error .divisionByZero := by
  obtain ⟨derives, known⟩ := derives_of_compile consistent h
  obtain ⟨tree, compiled⟩ := compile_derived derives known
  obtain rfl := Except.ok.inj (h.symm.trans compiled)
  rw [run_program]
  cases tree.dividesByZero symbols with
  | true => exact .inr rfl
  | false => exact .inl ⟨_, rfl⟩

end Asm68k.Expression
