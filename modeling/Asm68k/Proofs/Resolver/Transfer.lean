import Asm68k.Proofs.Resolver.Log

/-!
A successful run can be made again from other tables and with other limits, if the tables agree on
whatever the run looks up and the limits admit what it expands: `Runs.carried` and
`Passes.carried`.
-/

namespace Asm68k.Resolver

open Resolution

/-- A relation between tables that is kept when both get the same entry. -/
structure Likeness where
  symbols : Symbols → Symbols → Prop
  macros : Macros → Macros → Prop
  symbols_insert {s t : Symbols} (name : Bytes) (value : Int64) :
    symbols s t → symbols (s.insert name value) (t.insert name value)
  macros_insert {s t : Macros} (name : Bytes) (body : List Statement) :
    macros s t → macros (s.insert name body) (t.insert name body)

/-- The same tables. -/
def Likeness.equal : Likeness where
  symbols := Eq
  macros := Eq
  symbols_insert name value h := congrArg (·.insert name value) h
  macros_insert name body h := congrArg (·.insert name body) h

namespace Likeness

variable (like : Likeness)

structure Holds (s t : State) : Prop where
  symbols : like.symbols s.symbols t.symbols
  macros : like.macros s.macros t.macros
  bss : s.bss = t.bss
  usage : s.usage = t.usage

/-- Related tables have the same entry for what is looked up. -/
def Covers : Happening → Prop
  | .lookup name known =>
    ∀ s t, like.symbols s t → s[name]?.isSome = known → t[name]? = s[name]?
  | .invocation name known =>
    ∀ s t, like.macros s t → s[name]?.isSome = known → t[name]? = s[name]?
  | .expansion _ _ => True

variable {like} {s t : State}

theorem Holds.same {u : State} (h : like.Holds s t) (same : Same u t) : like.Holds s u where
  symbols := same.symbols ▸ h.symbols
  macros := same.macros ▸ h.macros
  bss := h.bss.trans same.bss.symm
  usage := h.usage.trans same.usage.symm

theorem Holds.labelled (h : like.Holds s t) (address : Int64) (statement : Statement) :
    like.Holds (s.labelled address statement) (t.labelled address statement) := by
  unfold State.labelled
  cases statement.label with
  | none => exact h
  | some label => exact ⟨like.symbols_insert _ _ h.symbols, h.macros, h.bss, h.usage⟩

theorem Holds.reported (h : like.Holds s t) (event event' : Event) :
    like.Holds (s.reported event) (t.reported event') := ⟨h.symbols, h.macros, h.bss, h.usage⟩

theorem Holds.withMacro (h : like.Holds s t) (name : Bytes) (body : List Statement) :
    like.Holds (s.withMacro name body) (t.withMacro name body) :=
  ⟨h.symbols, like.macros_insert name body h.macros, h.bss, h.usage⟩

theorem Holds.finished (h : like.Holds s t) (pending : Pending) :
    like.Holds (s.finished pending) (t.finished pending) := by
  cases pending with
  | nothing => exact h
  | macroBody name body => exact (h.withMacro name body.toList).reported _ _
  | repeatBody start body nested => exact h.reported _ _

theorem value?_covered {symbols symbols' : Symbols} {texts : List Bytes}
    (related : like.symbols symbols symbols')
    (covered : ∀ happening ∈ lookupLog symbols texts, like.Covers happening) {text : Bytes}
    (member : text ∈ texts) :
    Expression.value? (symbols'[·]?) text = Expression.value? (symbols[·]?) text := by
  apply Expression.value?_congr
  intro name looked
  have listed : Happening.lookup name symbols[name]?.isSome ∈ lookupLog symbols texts :=
    List.mem_map.mpr ⟨name, List.mem_flatMap.mpr ⟨text, member, looked⟩, rfl⟩
  exact covered _ listed symbols symbols' related rfl

theorem repeatCount_covered {symbols symbols' : Symbols} {start : Statement}
    (related : like.symbols symbols symbols')
    (covered : ∀ happening ∈ lookupLog symbols (Statement.firstText start.operands),
      like.Covers happening) :
    repeatCount symbols' start = repeatCount symbols start := by
  unfold repeatCount
  cases operands : start.operands with
  | nil => rfl
  | cons operand rest =>
    rw [operands] at covered
    dsimp only
    rw [value?_covered related covered List.mem_cons_self]

theorem Holds.plainLine (h : like.Holds s t) {statement : Statement}
    (covered : ∀ happening ∈ lookupLog s.symbols statement.evaluated, like.Covers happening) :
    plainLine t statement = plainLine s statement := by
  have same : ∀ text ∈ statement.evaluated,
      Expression.value? (t.symbols[·]?) text = Expression.value? (s.symbols[·]?) text :=
    fun _ member => value?_covered h.symbols covered member
  rw [Resolver.plainLine, Resolver.plainLine, Statement.length_congr same,
    Statement.times?_congr same, h.bss]

theorem Holds.assigned (h : like.Holds s t) {label : Label} {statement : Statement}
    (covered : ∀ happening ∈ lookupLog s.symbols (Statement.firstText statement.operands),
      like.Covers happening) :
    like.Holds (s.assigned label statement) (t.assigned label statement) := by
  unfold State.assigned
  cases operands : statement.operands with
  | nil => exact h
  | cons operand rest =>
    rw [operands] at covered
    have same := value?_covered h.symbols covered List.mem_cons_self
    rw [List.head?_cons, Option.bind_some, Option.bind_some, same]
    cases Expression.value? (s.symbols[·]?) operand.text with
    | none => exact h
    | some value => exact ⟨like.symbols_insert _ _ h.symbols, h.macros, h.bss, h.usage⟩

end Likeness

/-- What one expander does in a state, the other does in a related state. -/
def Carried (like : Likeness) (limits' : Limits) (expand : Expander) (log : Logger)
    (expand' : Expander) : Prop :=
  ∀ ⦃address statements s t lines s'⦄, expand address statements s = .ok lines s' →
    like.Holds s t → (∀ happening ∈ log address statements s, like.Covers happening) →
    s'.usage.Fits limits' →
    ∃ t', expand' address statements t = .ok lines t' ∧ like.Holds s' t'

section

variable {like : Likeness} {settings settings' : Settings} {limits limits' : Limits}
  {expand expand' : Expander} {log : Logger} {frame last : Frame} {statement : Statement}
  {statements : List Statement} {s t s' : State}

theorem repeatFrom_carried (logged : Logged limits expand log)
    (carried : Carried like limits' expand log expand') {body : List Statement} {count : Nat}
    {address : Int64} {copies result : List (List Line)}
    (h : repeatFrom expand body count address copies s = .ok result s') (holds : like.Holds s t)
    (covered : ∀ happening ∈ copiesLog expand log body count address s, like.Covers happening)
    (fits : s'.usage.Fits limits') :
    ∃ t', repeatFrom expand' body count address copies t = .ok result t' ∧ like.Holds s' t' := by
  induction count generalizing address copies s t with
  | zero =>
    obtain ⟨rfl, rfl⟩ := pure_ok h
    exact ⟨t, rfl, holds⟩
  | succ count ih =>
    obtain ⟨lines, u, expanded, h⟩ := bind_ok h
    rw [copiesLog, expanded] at covered
    obtain ⟨here, later⟩ := List.forall_mem_append.mp covered
    have fitsHere := (copiesLog_spent logged h).fits_before fits
    obtain ⟨u', expanded', holds⟩ := carried expanded holds here fitsHere
    obtain ⟨t', rest, holds⟩ := ih h holds later
    exact ⟨t', (bind_of_ok expanded').trans rest, holds⟩

/-- The rule of a step applies in a related state too. -/
theorem Stepped.carried (settings' : Settings) (logged : Logged limits expand log)
    (carried : Carried like limits' expand log expand') {line : Line}
    (h : Stepped settings expand frame statement s line s') (holds : like.Holds s t)
    (covered : ∀ happening ∈ stepLog expand log frame statement s, like.Covers happening)
    (fits : s'.usage.Fits limits') :
    ∃ t', Stepped settings' expand' frame statement t line t' ∧ like.Holds s' t' := by
  obtain ⟨address, pending⟩ := frame
  cases h with
  | collected collecting unfinished => exact ⟨t, .collected collecting unfinished, holds⟩
  | macroEnded here ends => exact ⟨_, .macroEnded here ends, holds.withMacro _ _⟩
  | @repeatEnded start body copies _ here ends run =>
    cases here
    rw [stepLog_repeatEnded ends, repeatLog] at covered
    obtain ⟨counted, copied⟩ := List.forall_mem_append.mp covered
    have count := Likeness.repeatCount_covered holds.symbols counted
    obtain ⟨t', run', after⟩ := repeatFrom_carried logged carried run
      (holds.reported _ (.blockRepeated (repeatCount t.symbols start) body.size)) copied fits
    rw [← count] at run'
    rw [after.bss]
    exact ⟨t', .repeatEnded rfl ends run', after⟩
  | blank here inert => exact ⟨t, .blank here inert, holds⟩
  | plain here own =>
    cases here
    rw [stepLog, statementLog_plain own] at covered
    have labelled := holds.labelled address statement
    rw [← labelled.plainLine covered]
    exact ⟨_, .plain rfl own, labelled⟩
  | assigned here directive name =>
    cases here
    have computed : statement.evaluated = Statement.firstText statement.operands :=
      evaluated_of_directive directive (by simp [Directive.evaluates, name])
    rw [stepLog, statementLog_assigned directive, computed] at covered
    exact ⟨_, .assigned rfl directive name, holds.assigned covered⟩
  | macroBegun here directive named =>
    exact ⟨_, .macroBegun here directive named, holds.reported _ _⟩
  | switched here spelled sectional =>
    exact ⟨_, .switched here spelled sectional, holds.symbols, holds.macros, rfl, holds.usage⟩
  | @ignored opcode name _ here spelled invokes unknown after =>
    cases here
    rw [stepLog, statementLog_invocation spelled invokes, invocationLog, unknown] at covered
    have unknown' : t.macros[name]? = none := by
      have same := covered _ List.mem_cons_self s.macros t.macros holds.macros (by simp [unknown])
      rw [same, unknown]
    refine ⟨_, .ignored rfl spelled invokes unknown' (.inl rfl), ?_⟩
    rcases after with rfl | rfl
    · exact holds.labelled _ _
    · have labelled := holds.labelled address statement
      exact ⟨labelled.symbols, labelled.macros, labelled.bss, labelled.usage⟩
  | @invoked opcode name body _ _ here spelled invokes known run =>
    cases here
    rw [stepLog, statementLog_invocation spelled invokes, invocationLog, known] at covered
    obtain ⟨looked, expanded⟩ := List.forall_mem_cons.mp covered
    have known' : t.macros[name]? = some body := by
      rw [looked s.macros t.macros holds.macros (by simp [known]), known]
    obtain ⟨t', run', after⟩ := carried run (holds.labelled address statement) expanded fits
    rw [after.bss]
    exact ⟨t', .invoked rfl spelled invokes known' run', after⟩

theorem Runs.carried (settings' : Settings) (logged : Logged limits expand log)
    (carried : Carried like limits' expand log expand') {lines : List Line}
    (h : Runs settings expand frame statements s lines last s') (holds : like.Holds s t)
    (covered : ∀ happening ∈ sequenceLog settings expand log frame statements s,
      like.Covers happening)
    (fits : s'.usage.Fits limits') :
    ∃ t', Runs settings' expand' frame statements t lines last t' ∧ like.Holds s' t' := by
  induction h generalizing t with
  | nil frame s => exact ⟨t, .nil frame t, holds⟩
  | @cons frame _ statement statements s u s' line _ _ stepped rest ih =>
    rw [sequenceLog_cons stepped] at covered
    obtain ⟨here, later⟩ := List.forall_mem_append.mp covered
    have fitsHere : u.usage.Fits limits' := (rest.spent logged).fits_before fits
    obtain ⟨rule, rfl⟩ := step_stepped stepped
    obtain ⟨u', rule', between⟩ :=
      rule.carried settings' logged carried holds here fitsHere
    obtain ⟨v, stepped', same⟩ := rule'.carriedOut
    obtain ⟨t', rest', after⟩ := ih (between.same same) later fits
    exact ⟨t', .cons stepped' rest', after⟩

/-- Expanders of two passes that are at the same depth. -/
theorem expandAt_carried {depth levels levels' : Nat} (patient : settings'.patience = none)
    (sum : depth + levels = settings.limits.depth)
    (sum' : depth + levels' = settings'.limits.depth) :
    Carried like settings'.limits (expandAt settings levels)
      (expansionLog settings (depth + 1) levels) (expandAt settings' levels') := by
  induction levels generalizing depth levels' with
  | zero =>
    intro address statements s t lines s' h
    obtain ⟨inner, _, _, levels, _⟩ := expandAt_runs h
    cases levels
  | succ levels ih =>
    intro address statements s t lines s' h holds covered fits
    obtain ⟨_, last, u, ⟨rfl⟩, run, rfl⟩ := expandAt_runs h
    have deeper : depth + 1 + levels = settings.limits.depth := by omega
    have logged := expandAt_logged settings deeper
    have here : settings.limits.depth - levels = depth + 1 := by omega
    rw [expansionLog] at covered
    rw [here] at run covered
    obtain ⟨-, inside⟩ := List.forall_mem_cons.mp covered
    have fitsRun : u.usage.Fits settings'.limits := by
      rw [← u.finished_usage last.pending]
      exact fits
    have fitsHere : (s.usage.add (depth + 1) statements.length).Fits settings'.limits :=
      (run.spent logged).fits_before fitsRun
    -- The new limits admit this depth, so a level is left there too.
    obtain ⟨inner, rfl⟩ : ∃ inner, levels' = inner + 1 := by
      have deep : depth + 1 ≤ settings'.limits.depth :=
        Nat.le_trans (Nat.le_max_right _ _) fitsHere.depth
      exact ⟨levels' - 1, by omega⟩
    have there : settings'.limits.depth - inner = depth + 1 := by omega
    have deeper' : depth + 1 + inner = settings'.limits.depth := by omega
    have charged : like.Holds (s.charged (depth + 1) statements.length)
        (t.charged (depth + 1) statements.length) := by
      refine ⟨holds.symbols, holds.macros, holds.bss, ?_⟩
      simp only [State.charged, holds.usage]
    obtain ⟨u', run', after⟩ :=
      run.carried settings' logged (ih deeper deeper') charged inside fitsRun
    refine ⟨u'.finished last.pending, ?_, after.finished _⟩
    apply Runs.expandAt_ok patient
    · rw [there, ← holds.usage]
      exact fitsHere.lines
    · rw [there]
      exact run'

theorem Passes.carried {lines : List Line} (h : Passes settings statements s lines s')
    (like : Likeness) (settings' : Settings) (patient : settings'.patience = none)
    (symbols : like.symbols s.symbols t.symbols) (macros : like.macros s.macros t.macros)
    (covered : ∀ happening ∈ sourceLog settings statements s, like.Covers happening)
    (fits : s'.usage.Fits settings'.limits) :
    ∃ t', Passes settings' statements t lines t' ∧ like.Holds s' t' := by
  obtain ⟨last, u, run, rfl⟩ := h
  have fitsRun : u.usage.Fits settings'.limits := by
    rw [← u.finished_usage last.pending]
    exact fits
  have fresh : like.Holds s.fresh t.fresh := ⟨symbols, macros, rfl, rfl⟩
  obtain ⟨u', run', after⟩ := run.carried settings'
    (expandAt_logged settings (Nat.zero_add _))
    (expandAt_carried patient (Nat.zero_add _) (Nat.zero_add _)) fresh covered fitsRun
  exact ⟨u'.finished last.pending, ⟨last, u', run', rfl⟩, after.finished _⟩

end

end Asm68k.Resolver
