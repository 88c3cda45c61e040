import Asm68k.Proofs.Resolver.Replacement

/-!
Macros. A macro that is begun no more often keeps its body (`Runs.kept`), so the invocation of a
macro that is defined once may be replaced by the lines of its body with the arguments put in.
-/

namespace Asm68k.Resolver

open Line Resolution

/-! ### Macros keep their bodies -/

def State.begunCount (s : State) (name : Bytes) : Nat := s.events.count (.macroBegun name)

def Pending.Captures (name : Bytes) (pending : Pending) : Prop :=
  ∃ body, pending = .macroBody name body

/-- A macro is not begun less often than before; if not more often either, it keeps its body and is
not being captured. -/
structure Kept (name : Bytes) (before : Pending) (s : State) (after : Pending) (s' : State) :
    Prop where
  grows : s.begunCount name ≤ s'.begunCount name
  still : ¬before.Captures name → s'.begunCount name = s.begunCount name →
    s'.macros[name]? = s.macros[name]? ∧ ¬after.Captures name

variable {name : Bytes}

theorem kept_refl (pending : Pending) (s : State) : Kept name pending s pending s :=
  ⟨Nat.le_refl _, fun free _ => ⟨rfl, free⟩⟩

theorem Kept.trans {p q r : Pending} {s t u : State} (first : Kept name p s q t)
    (second : Kept name q t r u) : Kept name p s r u where
  grows := Nat.le_trans first.grows second.grows
  still free same := by
    have one := first.grows
    have two := second.grows
    obtain ⟨macros, between⟩ := first.still free (by omega)
    obtain ⟨macros', after⟩ := second.still between (by omega)
    exact ⟨macros'.trans macros, after⟩

theorem kept_of_eq {p q : Pending} {s s' : State} (events : s'.events = s.events)
    (macros : s'.macros = s.macros) (free : ¬p.Captures name → ¬q.Captures name) :
    Kept name p s q s' where
  grows := Nat.le_of_eq (by rw [State.begunCount, State.begunCount, events])
  still before _ := ⟨by rw [macros], free before⟩

theorem kept_reported {p q : Pending} (s : State) (event : Event)
    (free : ¬p.Captures name → ¬q.Captures name) : Kept name p s q (s.reported event) where
  grows := List.count_le_count_cons
  still before _ := ⟨rfl, free before⟩

theorem kept_begun (p : Pending) (s : State) (other : Bytes) (body : Array Statement) :
    Kept name p s (.macroBody other body) (s.reported (.macroBegun other)) where
  grows := List.count_le_count_cons
  still before same := by
    refine ⟨rfl, ?_⟩
    rintro ⟨body', captured⟩
    cases captured
    rw [State.begunCount, State.begunCount, State.reported, List.count_cons_self] at same
    omega

theorem kept_withMacro {p q : Pending} {other : Bytes} {body : Array Statement}
    (pending : p = .macroBody other body) (free : ¬q.Captures name) (s : State) :
    Kept name p s q (s.withMacro other body.toList) where
  grows := Nat.le_refl _
  still before _ := by
    have different : other ≠ name := by
      rintro rfl
      exact before ⟨body, pending⟩
    exact ⟨by simp [State.withMacro, Std.ExtTreeMap.getElem?_insert, different], free⟩

theorem nothing_free : ¬Pending.nothing.Captures name := by
  rintro ⟨body, captured⟩
  cases captured

theorem Kept.weaken {p q : Pending} {s s' : State} (kept : Kept name .nothing s .nothing s')
    (free : ¬q.Captures name) : Kept name p s q s' where
  grows := kept.grows
  still _ same := ⟨(kept.still nothing_free same).1, free⟩

theorem begun_captures {statement : Statement} (h : (begun statement).Captures name) :
    statement.directive? = some .beginMacro ∧ macroName? statement = some name := by
  obtain ⟨body, captured⟩ := h
  unfold begun at captured
  split at captured
  · rename_i begins
    split at captured
    · cases captured
    · rename_i named
      cases captured
      exact ⟨begins, named⟩
  · cases captured
  · cases captured

theorem after_free {pending : Pending} {statement : Statement} (collecting : pending ≠ .nothing)
    (free : ¬pending.Captures name) : ¬(pending.after statement).Captures name := by
  rintro ⟨body, captured⟩
  cases pending with
  | nothing => exact collecting rfl
  | macroBody other done =>
    simp only [Pending.after] at captured
    split at captured
    · cases captured
    · cases captured
      exact free ⟨done, rfl⟩
  | repeatBody start done nested =>
    simp only [Pending.after] at captured
    split at captured <;> cases captured

section

variable {settings : Settings} {expand : Expander} {s s' : State}

def ExpanderKeeps (name : Bytes) (expand : Expander) : Prop :=
  ∀ ⦃address : Int64⦄ ⦃body : List Statement⦄ ⦃s : State⦄ ⦃lines : List Line⦄ ⦃s' : State⦄,
    expand address body s = .ok lines s' → Kept name .nothing s .nothing s'

theorem repeatFrom_kept (expands : ExpanderKeeps name expand) {body : List Statement} {n : Nat}
    {address : Int64} {copies result : List (List Line)}
    (h : repeatFrom expand body n address copies s = .ok result s') :
    Kept name .nothing s .nothing s' := by
  induction n generalizing address copies s with
  | zero =>
    cases h
    exact kept_refl _ _
  | succ n ih =>
    obtain ⟨lines, t, expanded, h⟩ := bind_ok h
    exact (expands expanded).trans (ih h)

theorem kept_labelled (address : Int64) (statement : Statement) (s : State) :
    Kept name .nothing s .nothing (s.labelled address statement) := by
  unfold State.labelled
  split
  · exact kept_of_eq rfl rfl id
  · exact kept_refl _ _

theorem stepped_kept (expands : ExpanderKeeps name expand) {frame : Frame} {statement : Statement}
    {line : Line} (h : Stepped settings expand frame statement s line s') :
    Kept name frame.pending s (frame.pending.after statement) s' := by
  -- Only the beginning of a macro captures one.
  have other (pending : frame.pending = .nothing)
      (notMacro : ¬(statement.directive? = some .beginMacro ∧ macroName? statement = some name)) :
      ¬(frame.pending.after statement).Captures name := by
    rw [pending]
    exact fun captured => notMacro (begun_captures captured)
  cases h with
  | collected collecting => exact kept_of_eq rfl rfl (after_free collecting)
  | macroEnded pending ends =>
    refine kept_withMacro pending ?_ s
    rw [pending, Pending.after, if_pos ends]
    exact nothing_free
  | repeatEnded pending ends run =>
    have kept := (kept_reported s _ id).trans (repeatFrom_kept expands run)
    refine kept.weaken ?_
    rw [pending]
    simpa [Pending.after, ends] using nothing_free
  | blank pending inert =>
    refine (kept_refl .nothing s).weaken (other pending ?_)
    rintro ⟨begins, named⟩
    rcases inert with ⟨empty, -⟩ | ⟨-, nameless⟩ | block
    · obtain ⟨opcode, spelled, -⟩ := directive?_eq_some begins
      cases empty.symm.trans spelled
    · cases nameless.symm.trans named
    · cases block.symm.trans begins
  | plain pending own =>
    refine (kept_labelled frame.address statement s).weaken (other pending ?_)
    rintro ⟨begins, -⟩
    obtain ⟨opcode, spelled, operation⟩ := directive?_eq_some begins
    simp [IsPlain, spelled, operation] at own
  | assigned pending directive =>
    refine Kept.weaken ?_ (other pending ?_)
    · unfold State.assigned
      split
      · exact kept_of_eq rfl rfl id
      · exact kept_refl _ _
    · rintro ⟨begins, -⟩
      cases begins.symm.trans directive
  | macroBegun pending directive named =>
    rw [pending]
    simp only [Pending.after, begun, directive, named]
    exact kept_begun _ s _ _
  | switched pending spelled sectional =>
    refine Kept.weaken (kept_of_eq rfl rfl id) (other pending ?_)
    rintro ⟨begins, -⟩
    cases spelled.symm.trans begins
    cases sectional
  | ignored pending spelled invokes unknown after =>
    have labelled : Kept name .nothing s .nothing (s.labelled frame.address statement) :=
      kept_labelled frame.address statement s
    refine Kept.weaken ?_ (other pending ?_)
    · rcases after with rfl | rfl
      · exact labelled
      · exact labelled.trans (kept_reported _ _ id)
    · rintro ⟨begins, -⟩
      rw [directive?_eq_none spelled (by simp [invokes])] at begins
      cases begins
  | invoked pending spelled invokes known run =>
    refine ((kept_labelled frame.address statement s).trans (expands run)).weaken (other pending ?_)
    rintro ⟨begins, -⟩
    rw [directive?_eq_none spelled (by simp [invokes])] at begins
    cases begins

theorem Runs.kept (expands : ExpanderKeeps name expand) {frame last : Frame}
    {statements : List Statement} {lines : List Line}
    (h : Runs settings expand frame statements s lines last s') :
    Kept name frame.pending s last.pending s' := by
  induction h with
  | nil => exact kept_refl _ _
  | cons stepped rest ih =>
    obtain ⟨here, rfl⟩ := step_stepped stepped
    exact (stepped_kept expands here).trans ih

theorem kept_finished (pending : Pending) (s : State) :
    Kept name pending s .nothing (s.finished pending) := by
  cases pending with
  | nothing => exact kept_refl _ _
  | macroBody other body =>
    exact (kept_withMacro rfl nothing_free s).trans (kept_reported _ _ id)
  | repeatBody start body nested => exact kept_reported _ _ fun _ => nothing_free

theorem expandAt_kept (settings : Settings) (levels : Nat) :
    ExpanderKeeps name (expandAt settings levels) := by
  induction levels with
  | zero =>
    intro address body s lines s' h
    obtain ⟨_, _, _, impossible, _⟩ := expandAt_runs h
    cases impossible
  | succ levels ih =>
    intro address body s lines s' h
    obtain ⟨inner, last, t, same, run, rfl⟩ := expandAt_runs h
    cases same
    have charged : Kept name .nothing s .nothing (s.charged (settings.limits.depth - levels)
        body.length) := kept_of_eq rfl rfl id
    exact (charged.trans (run.kept ih)).trans (kept_finished _ _)

end

/-! ### Invocations -/

/-- A program that defines a macro by a block at the top level, and invokes it further down with a
line that stands at the top level too and has no label. -/
structure MacroUse (name : Bytes) (program : List Statement) where
  before : List Statement
  start : Statement
  body : List Statement
  finish : Statement
  between : List Statement
  invocation : Statement
  after : List Statement
  program_eq : program = before ++ start :: body ++ finish :: between ++ invocation :: after
  idle : Pending.nothing.afterAll before = .nothing
  begins : start.directive? = some .beginMacro
  named : macroName? start = some name
  inner : ∀ statement ∈ body, statement.directive? ≠ some .endMacro
  ends : finish.directive? = some .endMacro
  idle_between : Pending.nothing.afterAll between = .nothing
  unlabelled : invocation.label = none
  invokes : ∃ opcode, invocation.opcode = some opcode ∧ opcode.operation = .invocation name

namespace MacroUse

variable {program : List Statement}

def front (use : MacroUse name program) : List Statement :=
  use.before ++ use.start :: use.body ++ use.finish :: use.between

/-- The body of the macro with the arguments of the invocation put in. -/
def expansion (use : MacroUse name program) : List Statement :=
  use.body.map fun s => .ofLine (substitute (use.invocation.operands.map (·.text)) s.text)

def inlined (use : MacroUse name program) : List Statement :=
  use.front ++ use.expansion ++ use.after

theorem program_split (use : MacroUse name program) :
    program = use.front ++ [use.invocation] ++ use.after :=
  use.program_eq.trans (by simp [front])

end MacroUse

section

variable {settings : Settings} {expand : Expander} {address : Int64} {s s' : State}

theorem afterAll_captured {body : List Statement} (done : Array Statement)
    (inner : ∀ statement ∈ body, statement.directive? ≠ some .endMacro) :
    (Pending.macroBody name done).afterAll body = .macroBody name (done ++ body.toArray) := by
  induction body generalizing done with
  | nil => simp [Pending.afterAll]
  | cons statement body ih =>
    have ⟨here, rest⟩ := List.forall_mem_cons.mp inner
    show ((Pending.macroBody name done).after statement).afterAll body = _
    rw [Pending.after, if_neg here, ih _ rest]
    simp

theorem MacroUse.idle_front {program : List Statement} (use : MacroUse name program) :
    Pending.nothing.afterAll use.front = .nothing := by
  have begun : Pending.nothing.after use.start = .macroBody name #[] := by
    simp [Pending.after, begun, use.begins, use.named]
  have captured : (use.body.foldl Pending.after (.macroBody name #[])) =
      .macroBody name (#[] ++ use.body.toArray) := afterAll_captured #[] use.inner
  have idle : use.before.foldl Pending.after .nothing = .nothing := use.idle
  simp only [MacroUse.front, Pending.afterAll, List.foldl_append, List.foldl_cons, idle, begun,
    captured]
  rw [Pending.after, if_pos use.ends]
  exact use.idle_between

/-- After the block and what follows it, the macro has the body of the block, unless it is begun
again. -/
theorem MacroUse.defined {program : List Statement} (use : MacroUse name program)
    (expands : ExpanderKeeps name expand) {lines : List Line} {last : Frame}
    (h : Runs settings expand ⟨address, .nothing⟩ use.front s lines last s') :
    s.begunCount name + 1 ≤ s'.begunCount name ∧
      (s'.begunCount name = s.begunCount name + 1 → s'.macros[name]? = some use.body) := by
  unfold MacroUse.front at h
  obtain ⟨_, middle, t, _, first, rest, rfl⟩ := h.split
  obtain ⟨_, ⟨place, pending⟩, u, _, before, block, rfl⟩ := first.split
  have nothing : pending = .nothing := before.pending.trans use.idle
  subst nothing
  cases block with
  | @cons _ _ _ _ _ v _ line _ pending stepped body =>
  rw [step_beginMacro use.begins use.named] at stepped
  cases stepped
  obtain ⟨place', pending⟩ := middle
  have captured : pending = .macroBody name use.body.toArray := by
    have := body.pending.trans (afterAll_captured #[] use.inner)
    simpa using this
  subst captured
  cases rest with
  | @cons _ _ _ _ _ w _ line' _ pending' stepped' between =>
  rw [step_endMacro use.ends] at stepped'
  cases stepped'
  -- The block itself begins the macro once, so a total of one leaves nothing for the other parts.
  have begun : (u.reported (.macroBegun name)).begunCount name = u.begunCount name + 1 :=
    List.count_cons_self
  have grows := (before.kept expands).grows
  have grows' := (body.kept expands).grows
  have kept := between.kept expands
  have grows'' := kept.grows
  have same : (t.withMacro name use.body.toArray.toList).begunCount name = t.begunCount name := rfl
  refine ⟨by omega, fun once => ?_⟩
  rw [(kept.still nothing_free (by omega)).1]
  simp [State.withMacro]

theorem begunCount_le {before after : List Statement} {lines first : List Line} {u : State}
    (pass : Passes settings (before ++ after) s lines s') {last : Frame}
    (h : Runs settings (expandAt settings settings.limits.depth) ⟨0, .nothing⟩ before s.fresh first
      last u) : u.begunCount name ≤ s'.begunCount name := by
  obtain ⟨_, t, run, rfl⟩ := pass
  obtain ⟨_, _, _, _, one, two, rfl⟩ := run.split
  -- The whole pass goes through the same state after `before`, since a run has one outcome.
  obtain ⟨rfl, rfl, rfl⟩ := one.unique h
  exact Nat.le_trans (two.kept (expandAt_kept _ _)).grows (kept_finished _ _).grows

theorem MacroUse.begunCount_lt {program : List Statement} (use : MacroUse name program)
    {lines : List Line} (pass : Passes settings program s lines s') :
    s.begunCount name < s'.begunCount name := by
  rw [use.program_split, List.append_assoc] at pass
  have ⟨_, _, run, _⟩ := pass
  obtain ⟨_, _, _, _, reached, _, _⟩ := run.split
  exact Nat.lt_of_lt_of_le (use.defined (expandAt_kept _ _) reached).1 (begunCount_le pass reached)

/-- The invocation is interchangeable with the expansion, as long as the macro is begun once. -/
theorem interchangeable_invocation {program : List Statement} (use : MacroUse name program)
    (closed : Closed use.expansion) {lines : List Line}
    (pass : Passes settings program s lines s')
    (once : s'.begunCount name = s.begunCount name + 1) :
    Interchangeable settings s use.front [use.invocation] use.expansion := by
  intro settings' address u v u' v' first lines lines' last last' reached alike h h'
  rw [use.program_split, List.append_assoc] at pass
  obtain ⟨more, defined⟩ := use.defined (expandAt_kept _ _) reached
  have all : u.begunCount name ≤ s'.begunCount name := begunCount_le pass reached
  have known := defined (Nat.le_antisymm (by rw [once] at all; exact all) more)
  obtain ⟨opcode, spelled, invokes⟩ := use.invokes
  cases h with
  | @cons _ _ _ _ _ w _ line _ pending stepped rest =>
  cases rest
  rw [step_invocation spelled invokes use.unlabelled] at stepped
  obtain ⟨_, _, resolved, stepped⟩ := bind_ok stepped
  cases stepped
  unfold resolveInvocation at resolved
  obtain ⟨_, _, read, resolved⟩ := bind_ok resolved
  cases read
  simp only [known] at resolved
  obtain ⟨expanded, _, run, resolved⟩ := bind_ok resolved
  cases resolved
  obtain ⟨rfl, rfl, after⟩ := expandAt_inline closed alike run h'
  refine ⟨?_, ?_, after⟩
  · simp [leaves]
  · rw [bytes_ofExpansion]

end

theorem begunCount_announced (s : State) (number count : Nat) :
    (s.announced number count).begunCount name = s.begunCount name :=
  List.count_cons_of_ne (by simp)

/-- The invocation of a macro that is begun once in each pass may be replaced by the lines of its
body with the arguments put in. -/
theorem resolve_inlined {limits : Limits} {patience : Option Nat} {source source' : Bytes}
    {lines lines' : List Line} (use : MacroUse name (statements source))
    (once : (resolve limits patience source).events.count (.macroBegun name) = 2)
    (closed : Closed use.expansion) (inlined : statements source' = use.inlined)
    (h : (resolve limits patience source).result = .ok lines)
    (h' : (resolve limits patience source').result = .ok lines') :
    (resolve limits patience source).symbols = (resolve limits patience source').symbols ∧
      (Totals.ofLines lines).space = (Totals.ofLines lines').space ∧
      counted (leaves lines) = counted (leaves lines') := by
  refine resolve_replaced h h' use.program_split inlined use.idle_front ?_
  intro first t s' one two outcome
  have passed := pass_passes one
  have passed' := pass_passes two
  -- Each pass begins the macro at least once, so neither begins it twice.
  have more := use.begunCount_lt passed
  have more' := use.begunCount_lt passed'
  rw [begunCount_announced] at more more'
  have twice : s'.begunCount name = 2 := by
    rw [outcome, Outcome.ofResult, List.count_reverse] at once
    exact once
  have none : State.initial.begunCount name = 0 := rfl
  have first : t.begunCount name = 1 := by omega
  refine ⟨interchangeable_invocation use closed passed ?_,
    interchangeable_invocation use closed passed' ?_⟩
  · rw [begunCount_announced, none, first]
  · rw [begunCount_announced, first, twice]

/-- The macro counts and has a block, and its arguments are the step and the number of copies. -/
theorem resolve_inlined_block :
    let source := Bytes.ofLines (["x set 1", "m macro", "x set x+\\1", " rept \\2", "l dc.b x",
      " endr", " endm", " m 3,2"].map Bytes.ofString)
    let source' := Bytes.ofLines (["x set 1", "m macro", "x set x+\\1", " rept \\2", "l dc.b x",
      " endr", " endm", "x set x+3", " rept 2", "l dc.b x", " endr"].map Bytes.ofString)
    ∃ use : MacroUse (Bytes.ofString "M") (statements source), statements source' = use.inlined ∧
      (resolve .standard none source).events.count (.macroBegun (Bytes.ofString "M")) = 2 ∧
      ∃ lines lines', (resolve .standard none source).result = .ok lines ∧
        (resolve .standard none source').result = .ok lines' ∧
        (resolve .standard none source).symbols = (resolve .standard none source').symbols ∧
        (Totals.ofLines lines).space = (Totals.ofLines lines').space ∧
        counted (leaves lines) = counted (leaves lines') := by
  intro source source'
  let ofText (text : String) : Statement := .ofLine (Bytes.ofString text)
  obtain ⟨assigns, begins, named, inner, ends, unlabelled, invokes, arguments, closed, closed'⟩ :
      (ofText "x set 1").directive? = some (.assign .set) ∧
      (ofText "m macro").directive? = some .beginMacro ∧
      macroName? (ofText "m macro") = some (Bytes.ofString "M") ∧
      (∀ s ∈ ["x set x+\\1", " rept \\2", "l dc.b x", " endr"].map ofText,
        s.directive? ≠ some .endMacro) ∧
      (ofText " endm").directive? = some .endMacro ∧
      (ofText " m 3,2").label = none ∧
      (ofText " m 3,2").opcode = some ⟨.invocation (Bytes.ofString "M"), 1, none⟩ ∧
      (ofText " m 3,2").operands.map (·.text) = [['3'.toUInt8], ['2'.toUInt8]] ∧
      (∀ s ∈ ["x set x+3", " rept 2", "l dc.b x", " endr"].map ofText,
        s.directive? ≠ some .beginMacro ∧ s.directive? ≠ some .endMacro) ∧
      openBlocks 0 (["x set x+3", " rept 2", "l dc.b x", " endr"].map ofText) = some 0 := by
    decide +kernel
  obtain ⟨substituted, once, resolved, resolved'⟩ :
      (["x set x+\\1", " rept \\2", "l dc.b x", " endr"].map fun line =>
        substitute [['3'.toUInt8], ['2'.toUInt8]] (Bytes.ofString line)) =
          ["x set x+3", " rept 2", "l dc.b x", " endr"].map Bytes.ofString ∧
      (resolve .standard none source).events.count (.macroBegun (Bytes.ofString "M")) = 2 ∧
      (resolve .standard none source).result.isOk = true ∧
      (resolve .standard none source').result.isOk = true := by
    decide +kernel
  let use : MacroUse (Bytes.ofString "M") (statements source) :=
    { before := [ofText "x set 1"]
      start := ofText "m macro"
      body := ["x set x+\\1", " rept \\2", "l dc.b x", " endr"].map ofText
      finish := ofText " endm"
      between := []
      invocation := ofText " m 3,2"
      after := []
      program_eq := statements_ofLines (by decide +kernel) (by decide)
      idle := by simp [Pending.afterAll, Pending.after, begun, assigns]
      begins, named, inner, ends
      idle_between := rfl
      unlabelled
      invokes := ⟨_, invokes, rfl⟩ }
  have expanded : use.expansion = ["x set x+3", " rept 2", "l dc.b x", " endr"].map ofText := by
    have := congrArg (List.map Statement.ofLine) substituted
    rwa [List.map_map, List.map_map, ← arguments] at this
  have inlined : statements source' = use.inlined := by
    rw [MacroUse.inlined, expanded]
    exact statements_ofLines (by decide +kernel) (by decide)
  obtain ⟨lines, h⟩ := exists_ok resolved
  obtain ⟨lines', h'⟩ := exists_ok resolved'
  exact ⟨use, inlined, once, lines, lines', h, h',
    resolve_inlined use once (expanded ▸ ⟨closed, closed'⟩) inlined h h'⟩

end Asm68k.Resolver
