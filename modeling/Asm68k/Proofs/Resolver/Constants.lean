import Asm68k.Proofs.Resolver.Transfer

/-!
Statements that depend on constants only. A statement is tame for a table of constants if it
defines no macro, binds none of the names in the table and evaluates expressions over these names
only. Steps over tame statements, and all that is expanded on the way, keep the constants.
-/

namespace Asm68k

/-- The statement is an assignment to its label. -/
def Statement.assigns (statement : Statement) : Bool :=
  statement.label.isSome && statement.directive? matches some (.assign _)

/-- What an assignment binds, if its expression needs no symbols. -/
def Statement.binding? (statement : Statement) : Option (Bytes × Int64) :=
  match statement.label, statement.operands with
  | some label, operand :: _ =>
    (Expression.value? (fun _ => none) operand.text).map (label.name, ·)
  | _, _ => none

namespace Resolver

open Resolution

structure Tame (constants : Symbols) (statement : Statement) : Prop where
  noMacro : statement.directive? ≠ some .beginMacro
  noAssignment : statement.assigns = false
  fresh : ∀ label ∈ statement.label, label.name ∉ constants
  closed : ∀ text ∈ statement.evaluated, ∀ name ∈ Expression.mentions text, name ∈ constants

instance (constants : Symbols) (statement : Statement) : Decidable (Tame constants statement) :=
  decidable_of_iff
    (statement.directive? ≠ some .beginMacro ∧ statement.assigns = false ∧
      (∀ label ∈ statement.label, label.name ∉ constants) ∧
      ∀ text ∈ statement.evaluated, ∀ name ∈ Expression.mentions text, name ∈ constants)
    ⟨fun ⟨noMacro, noAssignment, fresh, closed⟩ => ⟨noMacro, noAssignment, fresh, closed⟩,
      fun h => ⟨h.noMacro, h.noAssignment, h.fresh, h.closed⟩⟩

theorem Tame.not_assigned {constants : Symbols} {statement : Statement}
    (tame : Tame constants statement) {spelling : Assignment} {label : Label}
    (directive : statement.directive? = some (.assign spelling))
    (named : statement.label = some label) : False := by
  have assigns := tame.noAssignment
  rw [Statement.assigns, directive, named] at assigns
  cases assigns

/-- What is collected is tame. -/
def Pending.Tame (constants : Symbols) : Pending → Prop
  | .nothing => True
  | .macroBody _ _ => False
  | .repeatBody start body _ =>
    Resolver.Tame constants start ∧ start.directive? = some .beginRepeat ∧
      ∀ statement ∈ body.toList, Resolver.Tame constants statement

/-- What a step over tame statements can change. -/
structure Steady (constants : Symbols) (s s' : State) : Prop where
  macros : s'.macros = s.macros
  constants : ∀ name ∈ constants, s'.symbols[name]? = s.symbols[name]?
  domain : ∀ name ∈ s.symbols, name ∈ s'.symbols

def Happening.Within (constants : Symbols) : Happening → Prop
  | .lookup name _ => name ∈ constants
  | .invocation _ _ | .expansion _ _ => True

section

variable {constants : Symbols} {statement : Statement} {s t s' : State}

theorem steady_refl (s : State) : Steady constants s s := ⟨rfl, fun _ _ => rfl, fun _ => id⟩

theorem Steady.trans (h : Steady constants s t) (h' : Steady constants t s') :
    Steady constants s s' where
  macros := h'.macros.trans h.macros
  constants name member := (h'.constants name member).trans (h.constants name member)
  domain name member := h'.domain name (h.domain name member)

theorem Tame.labelled (tame : Tame constants statement) (s : State) (address : Int64) :
    Steady constants s (s.labelled address statement) := by
  unfold State.labelled
  cases named : statement.label with
  | none => exact steady_refl s
  | some label =>
    have fresh := tame.fresh label named
    refine ⟨rfl, fun name member => ?_, fun name member => ?_⟩
    · have different : label.name ≠ name := fun same => fresh (same ▸ member)
      simp [Std.ExtTreeMap.getElem?_insert, different]
    · exact Std.ExtTreeMap.mem_insert.mpr (.inr member)

theorem Pending.Tame.after {pending : Pending} (collected : pending.Tame constants)
    (tame : Resolver.Tame constants statement) : (pending.after statement).Tame constants := by
  cases pending with
  | nothing =>
    rw [Pending.after, begun]
    split
    · exact absurd ‹_› tame.noMacro
    · exact ⟨tame, ‹_›, by simp⟩
    · trivial
  | macroBody name body => exact collected.elim
  | repeatBody start body nested =>
    obtain ⟨begins, spelled, inside⟩ := collected
    have longer : ∀ b ∈ (body.push statement).toList, Resolver.Tame constants b := by
      intro b member
      rw [Array.toList_push, List.mem_append, List.mem_singleton] at member
      rcases member with before | rfl
      · exact inside b before
      · exact tame
    simp only [Pending.after]
    split
    · trivial
    · exact ⟨begins, spelled, longer⟩
    · exact ⟨begins, spelled, longer⟩
    · exact ⟨begins, spelled, longer⟩

theorem Pending.Tame.finished {pending : Pending} (collected : pending.Tame constants)
    (s : State) : Same (s.finished pending) s := by
  cases pending with
  | nothing => exact same_refl s
  | macroBody name body => exact collected.elim
  | repeatBody start body nested => exact same_reported s _

/-! ### Logs -/

theorem lookupLog_within {symbols : Symbols} {texts : List Bytes}
    (closed : ∀ text ∈ texts, ∀ name ∈ Expression.mentions text, name ∈ constants) :
    ∀ happening ∈ lookupLog symbols texts, happening.Within constants := by
  intro happening member
  obtain ⟨name, looked, rfl⟩ := List.mem_map.mp member
  obtain ⟨text, among, looked⟩ := List.mem_flatMap.mp looked
  exact closed text among name (Expression.mem_mentions_of_mem_lookups looked)

theorem statementLog_within {log : Logger} {address : Int64} (tame : Tame constants statement)
    (noMacros : s.macros = ∅) :
    ∀ happening ∈ statementLog log address statement s, happening.Within constants := by
  unfold statementLog
  split
  · intro happening member
    rw [invocationLog, noMacros] at member
    simp only [Std.ExtTreeMap.getElem?_empty, List.mem_singleton] at member
    subst member
    trivial
  · intro happening member
    cases member
  · exact lookupLog_within tame.closed
  · exact lookupLog_within tame.closed

/-! ### Runs over tame statements -/

/-- Expansions of tame statements keep the constants and look up no other names. -/
def HoldsConstants (constants : Symbols) (expand : Expander) (log : Logger) : Prop :=
  ∀ ⦃address body s lines s'⦄, (∀ statement ∈ body, Tame constants statement) → s.macros = ∅ →
    expand address body s = .ok lines s' →
    Steady constants s s' ∧ ∀ happening ∈ log address body s, happening.Within constants

variable {settings : Settings} {expand : Expander} {log : Logger} {frame last : Frame}
  {statements : List Statement} {lines : List Line}

theorem repeatFrom_steady (below : HoldsConstants constants expand log) {body : List Statement}
    (tame : ∀ statement ∈ body, Tame constants statement) (noMacros : s.macros = ∅) {count : Nat}
    {address : Int64} {copies result : List (List Line)}
    (h : repeatFrom expand body count address copies s = .ok result s') :
    Steady constants s s' ∧
      ∀ happening ∈ copiesLog expand log body count address s, happening.Within constants := by
  induction count generalizing address copies s with
  | zero =>
    obtain ⟨rfl, rfl⟩ := pure_ok h
    exact ⟨steady_refl s', by simp [copiesLog]⟩
  | succ count ih =>
    obtain ⟨lines, t, expanded, h⟩ := bind_ok h
    obtain ⟨steady, within⟩ := below tame noMacros expanded
    obtain ⟨steady', within'⟩ := ih (steady.macros.trans noMacros) h
    rw [copiesLog, expanded]
    exact ⟨steady.trans steady', List.forall_mem_append.mpr ⟨within, within'⟩⟩

theorem Stepped.steady (below : HoldsConstants constants expand log)
    (tame : Tame constants statement) (collected : frame.pending.Tame constants)
    (noMacros : s.macros = ∅) {line : Line}
    (h : Stepped settings expand frame statement s line s') :
    Steady constants s s' ∧
      ∀ happening ∈ stepLog expand log frame statement s, happening.Within constants := by
  obtain ⟨address, pending⟩ := frame
  have own (s' : State) (steady : Steady constants s s') : Steady constants s s' ∧
      ∀ happening ∈ statementLog log address statement s, happening.Within constants :=
    ⟨steady, statementLog_within tame noMacros⟩
  cases h with
  | collected collecting unfinished =>
    rw [stepLog_collected collecting unfinished]
    exact ⟨steady_refl s, by simp⟩
  | macroEnded here ends =>
    cases here
    exact collected.elim
  | repeatEnded here ends run =>
    cases here
    obtain ⟨begins, spelled, inside⟩ := collected
    obtain ⟨steady, within⟩ := repeatFrom_steady below inside (s := s.reported _) noMacros run
    have counted := begins.closed
    rw [evaluated_of_directive spelled rfl] at counted
    rw [stepLog_repeatEnded ends, repeatLog]
    exact ⟨⟨steady.macros, steady.constants, steady.domain⟩,
      List.forall_mem_append.mpr ⟨lookupLog_within counted, within⟩⟩
  | blank here inert =>
    cases here
    exact own _ (steady_refl s)
  | plain here own' =>
    cases here
    exact own _ (tame.labelled s address)
  | assigned here directive name => exact (tame.not_assigned directive name).elim
  | macroBegun here directive named => exact absurd directive tame.noMacro
  | switched here spelled sectional =>
    cases here
    exact own _ ⟨rfl, fun _ _ => rfl, fun _ => id⟩
  | ignored here spelled invokes unknown after =>
    cases here
    have labelled := tame.labelled s address
    rcases after with rfl | rfl
    · exact own _ labelled
    · exact own _ ⟨labelled.macros, labelled.constants, labelled.domain⟩
  | invoked here spelled invokes known run =>
    rw [noMacros, Std.ExtTreeMap.getElem?_empty] at known
    cases known

theorem Runs.steady (below : HoldsConstants constants expand log)
    (tame : ∀ statement ∈ statements, Tame constants statement)
    (collected : frame.pending.Tame constants) (noMacros : s.macros = ∅)
    (h : Runs settings expand frame statements s lines last s') :
    Steady constants s s' ∧ last.pending.Tame constants ∧
      ∀ happening ∈ sequenceLog settings expand log frame statements s,
        happening.Within constants := by
  induction h with
  | nil frame s => exact ⟨steady_refl s, collected, by simp [sequenceLog]⟩
  | @cons frame _ statement statements s t s' line _ _ stepped rest ih =>
    obtain ⟨first, later⟩ := List.forall_mem_cons.mp tame
    obtain ⟨rule, rfl⟩ := step_stepped stepped
    obtain ⟨steady, within⟩ := rule.steady below first collected noMacros
    obtain ⟨steady', collected', within'⟩ :=
      ih later (collected.after first) (steady.macros.trans noMacros)
    rw [sequenceLog_cons stepped]
    exact ⟨steady.trans steady', collected', List.forall_mem_append.mpr ⟨within, within'⟩⟩

theorem expandAt_holdsConstants (constants : Symbols) (settings : Settings) (depth levels : Nat) :
    HoldsConstants constants (expandAt settings levels) (expansionLog settings depth levels) := by
  induction levels generalizing depth with
  | zero =>
    intro address body s lines s' tame noMacros h
    obtain ⟨inner, _, _, levels, _⟩ := expandAt_runs h
    cases levels
  | succ levels ih =>
    intro address body s lines s' tame noMacros h
    obtain ⟨_, last, t, ⟨rfl⟩, run, rfl⟩ := expandAt_runs h
    have idle : (Frame.mk address .nothing).pending.Tame constants := trivial
    obtain ⟨steady, collected, within⟩ :=
      Runs.steady (ih (depth + 1)) tame idle (s := s.charged _ _) noMacros run
    have finished := collected.finished t
    refine ⟨⟨?_, ?_, ?_⟩, ?_⟩
    · exact finished.macros.trans steady.macros
    · rw [finished.symbols]
      exact steady.constants
    · rw [finished.symbols]
      exact steady.domain
    · rw [expansionLog]
      exact List.forall_mem_cons.mpr ⟨trivial, within⟩

/-! ### Assignments of constants -/

/-- The statement assigns a constant, wherever it stands. -/
structure Binds (constants : Symbols) (statement : Statement) (name : Bytes) (value : Int64) :
    Prop where
  assigns : statement.assigns = true
  binding : statement.binding? = some (name, value)
  constant : constants[name]? = some value

theorem Binds.mem {name : Bytes} {value : Int64} (h : Binds constants statement name value) :
    name ∈ constants := by
  simp [Std.ExtTreeMap.mem_iff_isSome_getElem?, h.constant]

def State.bound (s : State) (name : Bytes) (value : Int64) : State :=
  { s with symbols := s.symbols.insert name value }

theorem assigns_eq_true (h : statement.assigns = true) :
    ∃ label spelling, statement.label = some label ∧
      statement.directive? = some (.assign spelling) := by
  rw [Statement.assigns, Bool.and_eq_true, Option.isSome_iff_exists] at h
  obtain ⟨⟨label, named⟩, spelled⟩ := h
  split at spelled
  · exact ⟨label, _, named, ‹_›⟩
  · cases spelled

theorem Binds.step_eq {name : Bytes} {value : Int64} (h : Binds constants statement name value)
    (address : Int64) (s : State) :
    step settings expand ⟨address, .nothing⟩ statement s =
      .ok (.blank statement.text, .nothing) (s.bound name value) := by
  obtain ⟨label, spelling, named, directive⟩ := assigns_eq_true h.assigns
  have binding := h.binding
  unfold Statement.binding? at binding
  rw [named] at binding
  rw [step_assigned directive named, State.assigned]
  cases operands : statement.operands with
  | nil =>
    rw [operands] at binding
    cases binding
  | cons operand rest =>
    rw [operands] at binding
    obtain ⟨v, evaluated, ⟨rfl, rfl⟩⟩ := Option.map_eq_some_iff.mp binding
    rw [List.head?_cons, Option.bind_some, Expression.value?_constant evaluated]
    rfl

/-- Each constant has its value. -/
def Knows (constants symbols : Symbols) : Prop :=
  ∀ name ∈ constants, symbols[name]? = constants[name]?

/-- No constant has another value. -/
def Part (constants symbols : Symbols) : Prop :=
  ∀ name ∈ constants, symbols[name]? = none ∨ symbols[name]? = constants[name]?

theorem Part.knows {symbols : Symbols} (h : Part constants symbols)
    (all : ∀ name ∈ constants, name ∈ symbols) : Knows constants symbols := by
  intro name member
  refine (h name member).resolve_left fun absent => ?_
  have known := Std.ExtTreeMap.mem_iff_isSome_getElem?.mp (all name member)
  rw [absent] at known
  cases known

theorem Binds.part {name : Bytes} {value : Int64} (h : Binds constants statement name value)
    (part : Part constants s.symbols) : Part constants (s.bound name value).symbols := by
  intro other member
  by_cases same : name = other
  · subst same
    simp [State.bound, h.constant]
  · simpa [State.bound, Std.ExtTreeMap.getElem?_insert, same] using part other member

theorem Binds.same {name : Bytes} {value : Int64} (h : Binds constants statement name value)
    (known : Knows constants s.symbols) : Same (s.bound name value) s := by
  refine ⟨⟨Std.ExtTreeMap.ext_getElem? fun other => ?_, rfl, rfl⟩, rfl⟩
  by_cases same : name = other
  · subst same
    simp [State.bound, known name h.mem, h.constant]
  · simp [State.bound, Std.ExtTreeMap.getElem?_insert, same]

/-- Two arrangements of a program: the same tame statements, and assignments of constants between
them that are not collected for anything. -/
inductive Woven (constants : Symbols) : Pending → List Statement → List Statement → Prop where
  | nil (pending : Pending) : Woven constants pending [] []
  | both {pending : Pending} {statement : Statement} {xs ys : List Statement}
      (tame : Tame constants statement) (rest : Woven constants (pending.after statement) xs ys) :
      Woven constants pending (statement :: xs) (statement :: ys)
  | left {statement : Statement} {name : Bytes} {value : Int64} {xs ys : List Statement}
      (binds : Binds constants statement name value) (rest : Woven constants .nothing xs ys) :
      Woven constants .nothing (statement :: xs) ys
  | right {statement : Statement} {name : Bytes} {value : Int64} {xs ys : List Statement}
      (binds : Binds constants statement name value) (rest : Woven constants .nothing xs ys) :
      Woven constants .nothing xs (statement :: ys)

theorem Woven.symm {pending : Pending} {xs ys : List Statement}
    (h : Woven constants pending xs ys) : Woven constants pending ys xs := by
  induction h with
  | nil pending => exact .nil pending
  | both tame rest ih => exact .both tame ih
  | left binds rest ih => exact .right binds ih
  | right binds rest ih => exact .left binds ih

theorem woven_refl {statements : List Statement}
    (tame : ∀ statement ∈ statements, Tame constants statement) (pending : Pending) :
    Woven constants pending statements statements := by
  induction statements generalizing pending with
  | nil => exact .nil pending
  | cons statement statements ih =>
    obtain ⟨first, later⟩ := List.forall_mem_cons.mp tame
    exact .both first (ih later _)

/-- The assignment leaves a blank line and binds its name. -/
theorem Binds.runs_iff {name : Bytes} {value : Int64} (h : Binds constants statement name value)
    {address : Int64} :
    Runs settings expand ⟨address, .nothing⟩ (statement :: statements) s lines last s' ↔
      ∃ rest, lines = .blank statement.text :: rest ∧
        Runs settings expand ⟨address, .nothing⟩ statements (s.bound name value) rest last s' := by
  have here : address + (Line.blank statement.text).bytes = address := Int64.add_zero address
  constructor
  · intro run
    cases run with
    | cons stepped rest =>
      rw [h.step_eq] at stepped
      cases stepped
      dsimp only at rest
      rw [here] at rest
      exact ⟨_, rfl, rest⟩
  · rintro ⟨rest, rfl, run⟩
    refine .cons (h.step_eq address s) ?_
    dsimp only
    rw [here]
    exact run

end

end Resolver

end Asm68k
