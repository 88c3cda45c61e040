import Asm68k.Proofs.Expression.Tree

/-!
Sorting the items of an expression. Whatever order of precedence and parentheses the items of a
tree come in, the stack of waiting operators brings out the program of the tree: `compile_arranged`.
-/

namespace Asm68k.Expression

/-- Operators of a higher tier bind tighter. -/
def BinaryOp.tier : BinaryOp → Nat
  | .or => 1
  | .xor => 2
  | .and => 3
  | .shiftLeft | .shiftRight => 4
  | .add | .subtract => 5
  | .multiply | .divide | .modulo => 6

def UnaryOp.tier : Nat := 7

/-- The items of a tree, with parentheses around every part that binds less tightly than its place
demands, and maybe around others. A right operand must bind tighter than its operator. -/
inductive Arranged : Nat → Tree → List Item → Prop
  | literal {tier v} : Arranged tier (.literal v) [.value v]
  | symbol {tier name} : Arranged tier (.symbol name) [.symbol name]
  | unary {tier op operand items} (inner : Arranged UnaryOp.tier operand items) :
    Arranged tier (.unary op operand) (.operator (.unary op) :: items)
  | binary {tier op left right items items'} (loose : tier ≤ op.tier)
      (before : Arranged op.tier left items) (after : Arranged (op.tier + 1) right items') :
    Arranged tier (.binary op left right) (items ++ .operator (.binary op) :: items')
  | group {tier tree items} (inner : Arranged 1 tree items) :
    Arranged tier tree (.opening :: items ++ [.closing])

theorem BinaryOp.rank_eq_tier (op : BinaryOp) : op.rank = op.tier := by
  cases op <;> rfl

theorem BinaryOp.tier_lt (op : BinaryOp) : op.tier < UnaryOp.tier := by
  cases op <;> decide

namespace Tree

variable {symbols : Bytes → Option Int64}

theorem missing?_binary (op : BinaryOp) (left right : Tree) :
    (Tree.binary op left right).missing? symbols =
      (left.missing? symbols).or (right.missing? symbols) :=
  List.find?_append

theorem missing?_symbol {name : Bytes} (known : (Tree.symbol name).missing? symbols = none) :
    symbols name = some ((symbols name).getD 0) := by
  unfold missing? names at known
  cases value : symbols name with
  | none => simp [value] at known
  | some v => rfl

end Tree

namespace Yard

variable {symbols : Bytes → Option Int64}

/-! ### Operators that are held back -/

/-- The operator that waits on top does not take a part of the given tier away from what follows:
it binds less tightly, or the part is no longer open. -/
def Blocks (tier : Nat) (waiting : List (Option Operator)) : Prop :=
  ∀ op, waiting.head? = some (some op) → op.rank < tier ∨ tier = UnaryOp.tier

theorem collapse_held {rank : Nat} {held : List Operator} {waiting : List (Option Operator)}
    (least : ∀ op ∈ held, rank ≤ op.rank)
    (blocks : ∀ op, waiting.head? = some (some op) → op.rank < rank)
    (output : List Instruction) :
    collapse rank output (held.map some ++ waiting) =
      ((held.map .apply).reverse ++ output, waiting) := by
  induction held generalizing output with
  | nil =>
    match waiting with
    | [] | none :: _ => rfl
    | some op :: waiting =>
      have below := blocks op rfl
      rw [List.map_nil, List.nil_append, collapse, if_neg (by omega)]
      rfl
  | cons op held ih =>
    have ⟨first, others⟩ := List.forall_mem_cons.mp least
    rw [List.map_cons, List.cons_append, collapse, if_pos first, ih others, List.map_cons,
      List.reverse_cons, List.append_assoc, List.singleton_append]

theorem closeGroup_held (held : List Operator) (waiting : List (Option Operator))
    (output : List Instruction) :
    closeGroup output (held.map some ++ none :: waiting) =
      some ((held.map .apply).reverse ++ output, waiting) := by
  induction held generalizing output with
  | nil => rfl
  | cons op held ih =>
    rw [List.map_cons, List.cons_append, closeGroup, ih, List.map_cons, List.reverse_cons,
      List.append_assoc, List.singleton_append]

theorem drain_held (held : List Operator) (output : List Instruction) :
    drain output (held.map some) = some ((held.map .apply).reverse ++ output) := by
  induction held generalizing output with
  | nil => rfl
  | cons op held ih =>
    rw [List.map_cons, drain, ih, List.map_cons, List.reverse_cons, List.append_assoc,
      List.singleton_append]

/-! ### Sorting a tree -/

/-- A yard after the items of a tree: some operators of the tree are still held back, and once they
follow, the output has the program of the tree. -/
def Holds (symbols : Bytes → Option Int64) (tier : Nat) (tree : Tree) (output : List Instruction)
    (waiting : List (Option Operator)) (yard : Yard) : Prop :=
  ∃ (output' : List Instruction) (held : List Operator),
    yard = ⟨output', held.map some ++ waiting, true⟩ ∧ (∀ op ∈ held, tier ≤ op.rank) ∧
      (held.map .apply).reverse ++ output' = (tree.program symbols).reverse ++ output

theorem holds_nothing (symbols : Bytes → Option Int64) (tier : Nat) (tree : Tree)
    (output : List Instruction) (waiting : List (Option Operator)) :
    Holds symbols tier tree output waiting
      ⟨(tree.program symbols).reverse ++ output, waiting, true⟩ :=
  ⟨_, [], rfl, fun _ member => absurd member List.not_mem_nil, rfl⟩

theorem Holds.push {tier tier' : Nat} {part tree : Tree} {output output' : List Instruction}
    {waiting : List (Option Operator)} {op : Operator} {yard : Yard}
    (holds : Holds symbols tier' part output' (some op :: waiting) yard) (le : tier ≤ tier')
    (rank : tier ≤ op.rank)
    (last : (tree.program symbols).reverse ++ output =
      .apply op :: ((part.program symbols).reverse ++ output')) :
    Holds symbols tier tree output waiting yard := by
  obtain ⟨sorted, held, rfl, least, follows⟩ := holds
  refine ⟨sorted, held ++ [op], by simp, ?_, ?_⟩
  · intro op' member
    rcases List.mem_append.mp member with old | new
    · exact Nat.le_trans le (least op' old)
    · obtain rfl := List.mem_singleton.mp new
      exact rank
  · rw [List.map_append, List.reverse_append, List.append_assoc, follows, last]
    rfl

theorem step_binary {tier : Nat} {tree : Tree} {output : List Instruction}
    {waiting : List (Option Operator)} {yard : Yard} {op : BinaryOp} (loose : tier ≤ op.tier)
    (blocks : Blocks tier waiting) (holds : Holds symbols op.tier tree output waiting yard) :
    yard.step symbols (.operator (.binary op)) =
      .ok ⟨(tree.program symbols).reverse ++ output, some (.binary op) :: waiting, false⟩ := by
  obtain ⟨output', held, rfl, least, sorted⟩ := holds
  have tight := op.tier_lt
  rw [step, pushOperator, if_pos rfl, op.rank_eq_tier, collapse_held least, sorted]
  intro op' top
  have := blocks op' top
  omega

theorem step_closing {tree : Tree} {output : List Instruction} {waiting : List (Option Operator)}
    {yard : Yard} (holds : Holds symbols 1 tree output (none :: waiting) yard) :
    yard.step symbols .closing =
      .ok ⟨(tree.program symbols).reverse ++ output, waiting, true⟩ := by
  obtain ⟨output', held, rfl, -, sorted⟩ := holds
  rw [step, if_pos rfl, closeGroup_held, sorted]

theorem Blocks.weaken {tier tier' : Nat} {waiting : List (Option Operator)}
    (low : tier < UnaryOp.tier) (le : tier ≤ tier') (blocks : Blocks tier waiting) :
    Blocks tier' waiting := by
  intro op top
  have := blocks op top
  omega

theorem blocks_binary (op : BinaryOp) (waiting : List (Option Operator)) :
    Blocks (op.tier + 1) (some (.binary op) :: waiting) := by
  intro op' top
  obtain rfl := Option.some.inj (Option.some.inj top)
  rw [Operator.rank, op.rank_eq_tier]
  exact Or.inl (Nat.lt_succ_self _)

theorem blocks_unary (op : UnaryOp) (waiting : List (Option Operator)) :
    Blocks UnaryOp.tier (some (.unary op) :: waiting) :=
  fun _ _ => Or.inr rfl

theorem blocks_group {tier : Nat} (waiting : List (Option Operator)) :
    Blocks tier (none :: waiting) := by
  intro op top
  cases Option.some.inj top

theorem steps_arranged {tier : Nat} {tree : Tree} {items : List Item}
    (arranged : Arranged tier tree items) (known : tree.missing? symbols = none)
    (low : tier ≤ UnaryOp.tier) (output : List Instruction) {waiting : List (Option Operator)}
    (blocks : Blocks tier waiting) (rest : List Item) :
    ∃ yard, Holds symbols tier tree output waiting yard ∧
      steps symbols ⟨output, waiting, false⟩ (items ++ rest) = steps symbols yard rest := by
  induction arranged generalizing output waiting rest with
  | @literal tier v =>
    exact ⟨_, holds_nothing symbols tier (.literal v) output waiting, rfl⟩
  | @symbol tier name =>
    refine ⟨_, holds_nothing symbols tier (.symbol name) output waiting, ?_⟩
    rw [List.singleton_append, steps, step, Tree.missing?_symbol known]
    rfl
  | @unary tier op operand items inner ih =>
    obtain ⟨yard, holds, run⟩ := ih known (Nat.le_refl _) output (blocks_unary op waiting) rest
    exact ⟨yard, holds.push low low (by simp [Tree.program]), run⟩
  | @binary tier op left right items items' loose before after ihLeft ihRight =>
    rw [Tree.missing?_binary, Option.or_eq_none_iff] at known
    have tight := op.tier_lt
    obtain ⟨yard, holds, run⟩ := ihLeft known.1 (Nat.le_of_lt tight) output
      (blocks.weaken (by omega) loose) (.operator (.binary op) :: items' ++ rest)
    -- The operator collapses what the left operand holds back, and is then held back itself.
    obtain ⟨yard', holds', run'⟩ := ihRight known.2 tight
      ((left.program symbols).reverse ++ output) (blocks_binary op waiting) rest
    refine ⟨yard', holds'.push (by omega) ?_ (by simp [Tree.program]), ?_⟩
    · rw [Operator.rank, op.rank_eq_tier]
      exact loose
    · rw [List.append_assoc, run, List.cons_append, steps, step_binary loose blocks holds]
      exact run'
  | @group tier tree items inner ih =>
    obtain ⟨yard, holds, run⟩ := ih known (by decide) output
      (blocks_group waiting) (.closing :: rest)
    refine ⟨_, holds_nothing symbols tier tree output waiting, ?_⟩
    rw [List.append_assoc, List.cons_append]
    refine Eq.trans run ?_
    rw [steps, step_closing holds]
    rfl

/-- The first symbol without a value ends the sorting, whatever waits. -/
theorem steps_arranged_missing {tier : Nat} {tree : Tree} {items : List Item}
    (arranged : Arranged tier tree items) {name : Bytes}
    (missing : tree.missing? symbols = some name)
    (low : tier ≤ UnaryOp.tier) (output : List Instruction) {waiting : List (Option Operator)}
    (blocks : Blocks tier waiting) (rest : List Item) :
    steps symbols ⟨output, waiting, false⟩ (items ++ rest) = .error (.unknownSymbol name) := by
  induction arranged generalizing output waiting rest with
  | literal => cases missing
  | @symbol tier name' =>
    obtain ⟨absent, rfl⟩ : symbols name' = none ∧ name' = name := by
      simpa [Tree.missing?, Tree.names] using missing
    rw [List.singleton_append, steps, step, absent]
    rfl
  | @unary tier op operand items inner ih =>
    exact ih missing (Nat.le_refl _) output (blocks_unary op waiting) rest
  | @binary tier op left right items items' loose before after ihLeft ihRight =>
    have tight := op.tier_lt
    have blocks' : Blocks op.tier waiting := blocks.weaken (by omega) loose
    rw [List.append_assoc]
    rw [Tree.missing?_binary, Option.or_eq_some_iff] at missing
    rcases missing with missing | ⟨known, missing⟩
    · exact ihLeft missing (Nat.le_of_lt tight) output blocks' _
    · obtain ⟨yard, holds, run⟩ := steps_arranged before known (Nat.le_of_lt tight) output blocks'
        (.operator (.binary op) :: items' ++ rest)
      rw [run, List.cons_append, steps, step_binary loose blocks holds]
      exact ihRight missing tight _ (blocks_binary op waiting) rest
  | @group tier tree items inner ih =>
    rw [List.append_assoc]
    exact ih missing (by decide) output (blocks_group waiting) _

end Yard

theorem compile_arranged {symbols : Bytes → Option Int64} {tree : Tree} {items : List Item}
    (arranged : Arranged 1 tree items) :
    compile symbols items =
      match tree.missing? symbols with
      | some name => .error (.unknownSymbol name)
      | none => .ok (tree.program symbols) := by
  have blocks : Yard.Blocks 1 [] := fun op top => by cases top
  unfold compile Yard.initial
  rw [← List.append_nil items]
  cases missing : tree.missing? symbols with
  | some name =>
    rw [Yard.steps_arranged_missing arranged missing (by decide) [] blocks]
    rfl
  | none =>
    obtain ⟨_, ⟨output, held, rfl, -, sorted⟩, run⟩ :=
      Yard.steps_arranged arranged missing (by decide) [] blocks []
    rw [run, Yard.steps]
    show Yard.finish ⟨output, held.map some ++ [], true⟩ = .ok (tree.program symbols)
    rw [Yard.finish, if_pos rfl, List.append_nil, Yard.drain_held, sorted, List.append_nil]
    exact congrArg Except.ok (List.reverse_reverse _)

end Asm68k.Expression
