import Asm68k.Resolver

/-!
Steps of the resolver. `Stepped` lists what a statement can do to the state and which line it gets,
and `step_stepped` shows that every successful step is one of these rules.
-/

namespace Asm68k.Resolver

open Resolution

section Monad

variable {ε σ α β : Type}

theorem bind_ok {x : EStateM ε σ α} {f : α → EStateM ε σ β} {s s' : σ} {b : β}
    (h : (x >>= f) s = .ok b s') : ∃ a t, x s = .ok a t ∧ f a t = .ok b s' := by
  change EStateM.bind x f s = _ at h
  unfold EStateM.bind at h
  split at h
  · exact ⟨_, _, by assumption, h⟩
  · cases h

theorem bind_error {x : EStateM ε σ α} {f : α → EStateM ε σ β} {s s' : σ} {e : ε}
    (h : (x >>= f) s = .error e s') :
    x s = .error e s' ∨ ∃ a t, x s = .ok a t ∧ f a t = .error e s' := by
  change EStateM.bind x f s = _ at h
  unfold EStateM.bind at h
  split at h
  · exact .inr ⟨_, _, by assumption, h⟩
  · cases h
    exact .inl (by assumption)

theorem pure_ok {a b : α} {s s' : σ} (h : (pure a : EStateM ε σ α) s = .ok b s') :
    b = a ∧ s' = s := by
  cases h
  exact ⟨rfl, rfl⟩

end Monad

/-! ### Effects on the state -/

namespace State

/-- The state after a label, if the statement has one, is given the address. -/
def labelled (s : State) (address : Int64) (statement : Statement) : State :=
  match statement.label with
  | some label => { s with symbols := s.symbols.insert label.name address }
  | none => s

/-- The state after the label is given the value of the first operand, if that has one. -/
def assigned (s : State) (label : Label) (statement : Statement) : State :=
  match statement.operands.head?.bind fun o => Expression.value? (s.symbols[·]?) o.text with
  | some value => { s with symbols := s.symbols.insert label.name value }
  | none => s

def reported (s : State) (event : Event) : State := { s with events := event :: s.events }

def withMacro (s : State) (name : Bytes) (body : List Statement) : State :=
  { s with macros := s.macros.insert name body }

def switched (s : State) (bss : Bool) : State := { s with bss }

theorem labelled_macros (s : State) (address : Int64) (statement : Statement) :
    (s.labelled address statement).macros = s.macros := by
  unfold labelled
  cases statement.label <;> rfl

theorem labelled_bss (s : State) (address : Int64) (statement : Statement) :
    (s.labelled address statement).bss = s.bss := by
  unfold labelled
  cases statement.label <;> rfl

theorem labelled_usage (s : State) (address : Int64) (statement : Statement) :
    (s.labelled address statement).usage = s.usage := by
  unfold labelled
  cases statement.label <;> rfl

end State

theorem defineLabel_eq (address : Int64) (statement : Statement) (s : State) :
    defineLabel address statement s = .ok () (s.labelled address statement) := by
  unfold defineLabel State.labelled
  cases statement.label <;> rfl

theorem defineLabel_ok {address : Int64} {statement : Statement} {s s' : State} {u : Unit}
    (h : defineLabel address statement s = .ok u s') : s' = s.labelled address statement := by
  rw [defineLabel_eq] at h
  cases h
  rfl

theorem resolveAssignment_ok {label : Label} {statement : Statement} {s s' : State} {u : Unit}
    (h : resolveAssignment label statement s = .ok u s') : s' = s.assigned label statement := by
  unfold resolveAssignment at h
  unfold State.assigned
  cases ho : statement.operands with
  | nil =>
    rw [ho] at h
    exact (pure_ok h).2
  | cons operand operands =>
    rw [ho] at h
    obtain ⟨t, t', read, h⟩ := bind_ok h
    cases read
    rw [List.head?_cons, Option.bind_some]
    cases hv : Expression.value? (s.symbols[·]?) operand.text with
    | none => rw [hv] at h; exact (pure_ok h).2
    | some value => rw [hv] at h; cases h; rfl

/-- The line of a statement that stands for itself. -/
def plainLine (s : State) (statement : Statement) : Line :=
  .plain
    { text := statement.text
      bytes := statement.length (s.symbols[·]?)
      bss := s.bss
      times := statement.times? (s.symbols[·]?) }

theorem resolvePlain_ok {address : Int64} {statement : Statement} {s s' : State} {line : Line}
    (h : resolvePlain address statement s = .ok line s') :
    line = plainLine (s.labelled address statement) statement ∧
      s' = s.labelled address statement := by
  unfold resolvePlain at h
  obtain ⟨_, t, labelled, h⟩ := bind_ok h
  rw [defineLabel_ok labelled] at h
  cases h
  exact ⟨rfl, rfl⟩

/-! ### Steps -/

/-- What a statement that is resolved begins to collect. -/
def begun (statement : Statement) : Pending :=
  match statement.directive? with
  | some .beginMacro =>
    match macroName? statement with
    | none => .nothing
    | some name => .macroBody name #[]
  | some .beginRepeat => .repeatBody statement #[] 0
  | _ => .nothing

/-- What is collected after a statement. It depends on nothing but the statements. -/
def Pending.after : Pending → Statement → Pending
  | .nothing, statement => begun statement
  | .macroBody name body, statement =>
    if statement.directive? = some .endMacro then .nothing
    else .macroBody name (body.push statement)
  | .repeatBody start body nested, statement =>
    match statement.directive?, nested with
    | some .endRepeat, 0 => .nothing
    | some .endRepeat, nested + 1 => .repeatBody start (body.push statement) nested
    | some .beginRepeat, _ => .repeatBody start (body.push statement) (nested + 1)
    | _, _ => .repeatBody start (body.push statement) nested

theorem begun_eq_nothing {statement : Statement} (noMacro : statement.directive? ≠ some .beginMacro)
    (noBlock : statement.directive? ≠ some .beginRepeat) : begun statement = .nothing := by
  unfold begun
  split
  · rename_i spelled
    exact (noMacro spelled).elim
  · rename_i spelled
    exact (noBlock spelled).elim
  · rfl

theorem Pending.after_repeatBody {statement : Statement} (start : Statement)
    (body : Array Statement) (nested : Nat) (begins : statement.directive? ≠ some .beginRepeat)
    (ends : statement.directive? ≠ some .endRepeat) :
    (Pending.repeatBody start body nested).after statement =
      .repeatBody start (body.push statement) nested := by
  unfold Pending.after
  split <;> simp_all

/-- The statement has a line of its own: a label alone, an instruction or an ordinary directive. -/
def IsPlain (statement : Statement) : Prop :=
  match statement.opcode with
  | none => statement.label.isSome
  | some opcode =>
    match opcode.operation with
    | .instruction _ => True
    | .directive (.assign _) => statement.label = none
    | .directive directive =>
      directive ≠ .beginMacro ∧ directive ≠ .beginRepeat ∧ directive.isSection = false
    | .invocation _ => False

/-- What a step can do: the line of the statement and the state after it. -/
inductive Stepped (settings : Settings) (expand : Expander) (frame : Frame) (statement : Statement)
    (s : State) : Line → State → Prop where
  /-- The statement is kept for later. -/
  | collected (pending : frame.pending ≠ .nothing)
      (unfinished : frame.pending.after statement ≠ .nothing) :
      Stepped settings expand frame statement s (.blank statement.text) s
  | macroEnded {name : Bytes} {body : Array Statement}
      (pending : frame.pending = .macroBody name body)
      (ends : statement.directive? = some .endMacro) :
      Stepped settings expand frame statement s (.blank statement.text)
        (s.withMacro name body.toList)
  | repeatEnded {start : Statement} {body : Array Statement} {copies : List (List Line)}
      {s' : State} (pending : frame.pending = .repeatBody start body 0)
      (ends : statement.directive? = some .endRepeat)
      (run : repeatFrom expand body.toList (repeatCount s.symbols start).toInt.toNat frame.address
        [] (s.reported (.blockRepeated (repeatCount s.symbols start) body.size)) = .ok copies s') :
      Stepped settings expand frame statement s
        (.ofExpansion statement.text s'.bss copies.reverse.flatten) s'
  /-- An empty line, a nameless macro or the beginning of a block. -/
  | blank (pending : frame.pending = .nothing)
      (inert : statement.opcode = none ∧ statement.label = none ∨
        statement.directive? = some .beginMacro ∧ macroName? statement = none ∨
        statement.directive? = some .beginRepeat) :
      Stepped settings expand frame statement s (.blank statement.text) s
  | plain (pending : frame.pending = .nothing) (own : IsPlain statement) :
      Stepped settings expand frame statement s
        (plainLine (s.labelled frame.address statement) statement)
        (s.labelled frame.address statement)
  | assigned {spelling : Assignment} {label : Label} (pending : frame.pending = .nothing)
      (directive : statement.directive? = some (.assign spelling))
      (name : statement.label = some label) :
      Stepped settings expand frame statement s (.blank statement.text)
        (s.assigned label statement)
  | macroBegun {name : Bytes} (pending : frame.pending = .nothing)
      (directive : statement.directive? = some .beginMacro)
      (named : macroName? statement = some name) :
      Stepped settings expand frame statement s (.blank statement.text)
        (s.reported (.macroBegun name))
  | switched {directive : Directive} (pending : frame.pending = .nothing)
      (spelled : statement.directive? = some directive) (sectional : directive.isSection = true) :
      Stepped settings expand frame statement s (.blank statement.text)
        (s.switched (selectsBss directive statement.operands))
  /-- The invocation of a macro that is not known. -/
  | ignored {opcode : Opcode} {name : Bytes} {s' : State} (pending : frame.pending = .nothing)
      (spelled : statement.opcode = some opcode) (invokes : opcode.operation = .invocation name)
      (unknown : s.macros[name]? = none)
      (after : s' = s.labelled frame.address statement ∨
        s' = (s.labelled frame.address statement).reported (.macroUndefined name)) :
      Stepped settings expand frame statement s (.blank statement.text) s'
  | invoked {opcode : Opcode} {name : Bytes} {body : List Statement} {lines : List Line}
      {s' : State} (pending : frame.pending = .nothing)
      (spelled : statement.opcode = some opcode) (invokes : opcode.operation = .invocation name)
      (known : s.macros[name]? = some body)
      (run : expand frame.address
        (body.map fun b => .ofLine (substitute (statement.operands.map (·.text)) b.text))
        (s.labelled frame.address statement) = .ok lines s') :
      Stepped settings expand frame statement s (.ofExpansion statement.text s'.bss lines) s'

theorem directive?_eq_some {statement : Statement} {directive : Directive}
    (h : statement.directive? = some directive) :
    ∃ opcode, statement.opcode = some opcode ∧ opcode.operation = .directive directive := by
  unfold Statement.directive? at h
  split at h
  · rename_i spelled
    cases h
    exact ⟨_, spelled, rfl⟩
  · cases h

theorem directive?_of_operation {statement : Statement} {opcode : Opcode} {directive : Directive}
    (spelled : statement.opcode = some opcode) (h : opcode.operation = .directive directive) :
    statement.directive? = some directive := by
  obtain ⟨operation, start, size⟩ := opcode
  cases h
  rw [Statement.directive?, spelled]

theorem directive?_eq_none {statement : Statement} {opcode : Opcode}
    (spelled : statement.opcode = some opcode)
    (h : ∀ directive, opcode.operation ≠ .directive directive) : statement.directive? = none := by
  obtain ⟨operation, start, size⟩ := opcode
  rw [Statement.directive?, spelled]
  cases operation with
  | directive directive => exact (h directive rfl).elim
  | _ => rfl

theorem no_invocation_of_directive {statement : Statement} {directive : Directive}
    (spelled : statement.directive? = some directive) (name : Bytes) (start : Nat)
    (size : Option Size) : statement.opcode ≠ some ⟨.invocation name, start, size⟩ := by
  intro invokes
  rw [Statement.directive?, invokes] at spelled
  cases spelled

theorem IsPlain.no_invocation {statement : Statement} (own : IsPlain statement) (name : Bytes)
    (start : Nat) (size : Option Size) :
    statement.opcode ≠ some ⟨.invocation name, start, size⟩ := by
  intro invokes
  rw [IsPlain, invokes] at own
  exact own

section Steps

variable {settings : Settings} {expand : Expander} {statement : Statement} {s s' : State}
  {line : Line} {pending : Pending}

theorem resolveDirective_stepped {address : Int64} {directive : Directive}
    (spelled : statement.directive? = some directive)
    (h : resolveDirective address directive statement s = .ok (line, pending) s') :
    Stepped settings expand ⟨address, .nothing⟩ statement s line s' ∧
      pending = begun statement := by
  obtain ⟨opcode, here, operation⟩ := directive?_eq_some spelled
  -- Directives without a rule of their own are lines like any other.
  have ordinary (nothing : begun statement = .nothing) (own : IsPlain statement)
      (h : (do return (← resolvePlain address statement, Pending.nothing) : Resolution Step) s =
        .ok (line, pending) s') :
      Stepped settings expand ⟨address, .nothing⟩ statement s line s' ∧
        pending = begun statement := by
    obtain ⟨_, _, resolved, h⟩ := bind_ok h
    obtain ⟨rfl, rfl⟩ := resolvePlain_ok resolved
    cases h
    exact ⟨.plain rfl own, nothing.symm⟩
  unfold resolveDirective at h
  cases directive with
  | assign spelling =>
    cases hl : statement.label with
    | none =>
      rw [hl] at h
      exact ordinary (by simp [begun, spelled]) (by simp [IsPlain, here, operation, hl]) h
    | some label =>
      rw [hl] at h
      obtain ⟨_, _, assigned, h⟩ := bind_ok h
      rw [resolveAssignment_ok assigned] at h
      cases h
      exact ⟨.assigned rfl spelled hl, by simp [begun, spelled]⟩
  | beginMacro =>
    cases hn : macroName? statement with
    | none =>
      simp only [hn] at h
      cases h
      exact ⟨.blank rfl (.inr (.inl ⟨spelled, hn⟩)), by simp [begun, spelled, hn]⟩
    | some name =>
      simp only [hn] at h
      cases h
      exact ⟨.macroBegun rfl spelled hn, by simp [begun, spelled, hn]⟩
  | beginRepeat =>
    cases h
    exact ⟨.blank rfl (.inr (.inr spelled)), by simp [begun, spelled]⟩
  | namedSection =>
    cases h
    exact ⟨.switched rfl spelled rfl, by simp [begun, spelled]⟩
  | segment kind memory =>
    cases h
    exact ⟨.switched rfl spelled rfl, by simp [begun, spelled]⟩
  | _ =>
    exact ordinary (by simp [begun, spelled])
      (by simp [IsPlain, here, operation, Directive.isSection]) h

theorem resolveInvocation_stepped {address : Int64} {opcode : Opcode} {name : Bytes} {t : State}
    (spelled : statement.opcode = some opcode) (invokes : opcode.operation = .invocation name)
    (same : t = s.labelled address statement)
    (h : resolveInvocation settings expand address name statement t = .ok line s') :
    Stepped settings expand ⟨address, .nothing⟩ statement s line s' := by
  have macros : t.macros = s.macros := by
    rw [same, State.labelled]
    split <;> rfl
  unfold resolveInvocation at h
  obtain ⟨_, _, read, h⟩ := bind_ok h
  cases read
  cases hm : t.macros[name]? with
  | none =>
    rw [hm] at h
    dsimp only at h
    rw [macros] at hm
    cases hp : settings.isLastPass with
    | true =>
      rw [hp] at h
      cases h
      exact .ignored rfl spelled invokes hm (.inr (by rw [← same]; rfl))
    | false =>
      rw [hp] at h
      cases h
      exact .ignored rfl spelled invokes hm (.inl same)
  | some body =>
    rw [hm] at h
    obtain ⟨lines, t', expanded, h⟩ := bind_ok h
    cases h
    subst same
    exact .invoked rfl spelled invokes (macros ▸ hm) expanded

theorem resolveStatement_stepped {address : Int64}
    (h : resolveStatement settings expand address statement s = .ok (line, pending) s') :
    Stepped settings expand ⟨address, .nothing⟩ statement s line s' ∧
      pending = begun statement := by
  unfold resolveStatement at h
  cases ho : statement.opcode with
  | none =>
    have nothing : begun statement = .nothing := by
      rw [begun, Statement.directive?, ho]
    rw [ho] at h
    cases hl : statement.label with
    | none =>
      simp only [hl] at h
      cases h
      exact ⟨.blank rfl (.inl ⟨ho, hl⟩), nothing.symm⟩
    | some label =>
      simp only [hl] at h
      obtain ⟨_, _, resolved, h⟩ := bind_ok h
      obtain ⟨rfl, rfl⟩ := resolvePlain_ok resolved
      cases h
      exact ⟨.plain rfl (by simp [IsPlain, ho, hl]), nothing.symm⟩
  | some opcode =>
    rw [ho] at h
    dsimp only at h
    cases hop : opcode.operation with
    | instruction mnemonic =>
      rw [hop] at h
      obtain ⟨_, _, resolved, h⟩ := bind_ok h
      obtain ⟨rfl, rfl⟩ := resolvePlain_ok resolved
      cases h
      refine ⟨.plain rfl (by simp [IsPlain, ho, hop]), ?_⟩
      rw [begun, directive?_eq_none ho (by simp [hop])]
    | directive directive =>
      rw [hop] at h
      exact resolveDirective_stepped (directive?_of_operation ho hop) h
    | invocation name =>
      rw [hop] at h
      obtain ⟨_, _, labelled, h⟩ := bind_ok h
      obtain ⟨_, _, resolved, h⟩ := bind_ok h
      cases h
      refine ⟨resolveInvocation_stepped ho hop (defineLabel_ok labelled) resolved, ?_⟩
      rw [begun, directive?_eq_none ho (by simp [hop])]

theorem resolveRepeat_ok {address : Int64} {start : Statement} {body : List Statement}
    {text : Bytes} (h : resolveRepeat expand address start body text s = .ok line s') :
    ∃ copies, line = .ofExpansion text s'.bss copies.reverse.flatten ∧
      repeatFrom expand body (repeatCount s.symbols start).toInt.toNat address []
        (s.reported (.blockRepeated (repeatCount s.symbols start) body.length)) =
          .ok copies s' := by
  unfold resolveRepeat at h
  obtain ⟨_, _, read, h⟩ := bind_ok h
  cases read
  obtain ⟨_, _, reported, h⟩ := bind_ok h
  cases reported
  obtain ⟨copies, _, run, h⟩ := bind_ok h
  cases h
  exact ⟨copies, rfl, run⟩

/-- Every successful step is one of the rules, and what is collected after it is known. -/
theorem step_stepped {frame : Frame}
    (h : step settings expand frame statement s = .ok (line, pending) s') :
    Stepped settings expand frame statement s line s' ∧
      pending = frame.pending.after statement := by
  obtain ⟨address, before⟩ := frame
  cases before with
  | nothing => exact resolveStatement_stepped h
  | macroBody name body =>
    unfold step at h
    by_cases ends : statement.directive? = some .endMacro
    · simp only [if_pos ends] at h
      cases h
      exact ⟨.macroEnded rfl ends, by simp [Pending.after, ends]⟩
    · simp only [if_neg ends] at h
      cases h
      exact ⟨.collected (by simp) (by simp [Pending.after, ends]), by simp [Pending.after, ends]⟩
  | repeatBody start body nested =>
    unfold step at h
    cases hd : statement.directive? with
    | none =>
      simp only [hd] at h
      cases h
      exact ⟨.collected (by simp) (by simp [Pending.after, hd]), by simp [Pending.after, hd]⟩
    | some directive =>
      cases directive with
      | endRepeat =>
        cases nested with
        | zero =>
          simp only [hd] at h
          obtain ⟨_, _, repeated, h⟩ := bind_ok h
          obtain ⟨copies, rfl, run⟩ := resolveRepeat_ok repeated
          cases h
          exact ⟨.repeatEnded rfl hd run, by simp [Pending.after, hd]⟩
        | succ nested =>
          simp only [hd] at h
          cases h
          exact ⟨.collected (by simp) (by simp [Pending.after, hd]), by simp [Pending.after, hd]⟩
      | _ =>
        simp only [hd] at h
        cases h
        exact ⟨.collected (by simp) (by simp [Pending.after, hd]), by simp [Pending.after, hd]⟩

end Steps

/-! ### Steps of statements that frame macros and blocks -/

section Frames

variable {settings : Settings} {expand : Expander} {address : Int64} {statement : Statement}
  {s : State} {name : Bytes}

theorem step_directive {directive : Directive} (spelled : statement.directive? = some directive) :
    step settings expand ⟨address, .nothing⟩ statement =
      resolveDirective address directive statement := by
  obtain ⟨opcode, here, operation⟩ := directive?_eq_some spelled
  unfold step resolveStatement
  simp only [here, operation]

theorem step_beginRepeat (begins : statement.directive? = some .beginRepeat) :
    step settings expand ⟨address, .nothing⟩ statement s =
      .ok (.blank statement.text, .repeatBody statement #[] 0) s := by
  rw [step_directive begins]
  rfl

theorem step_endRepeat {start : Statement} {body : Array Statement}
    (ends : statement.directive? = some .endRepeat) :
    step settings expand ⟨address, .repeatBody start body 0⟩ statement =
      do return (← resolveRepeat expand address start body.toList statement.text, .nothing) := by
  unfold step
  simp only [ends]

theorem step_beginMacro (begins : statement.directive? = some .beginMacro)
    (named : macroName? statement = some name) :
    step settings expand ⟨address, .nothing⟩ statement s =
      .ok (.blank statement.text, .macroBody name #[]) (s.reported (.macroBegun name)) := by
  rw [step_directive begins]
  simp only [resolveDirective, named]
  rfl

theorem step_endMacro {body : Array Statement} (ends : statement.directive? = some .endMacro) :
    step settings expand ⟨address, .macroBody name body⟩ statement s =
      .ok (.blank statement.text, .nothing) (s.withMacro name body.toList) := by
  unfold step
  simp only [ends]
  rfl

theorem step_invocation {opcode : Opcode} (spelled : statement.opcode = some opcode)
    (invokes : opcode.operation = .invocation name) (unlabelled : statement.label = none) :
    step settings expand ⟨address, .nothing⟩ statement s =
      (do return (← resolveInvocation settings expand address name statement, .nothing) :
        Resolution Step) s := by
  unfold step resolveStatement
  simp only [spelled, invokes, defineLabel, unlabelled]
  rfl

end Frames

end Asm68k.Resolver
