import Asm68k.Proofs.Resolver.Agreement

/-!
The rules of `Stepped` are not only necessary: each of them is carried out by the resolver, up to
the reports (`Stepped.carriedOut`), and a run of steps makes a pass succeed (`Passes.pass_ok`).
-/

namespace Asm68k.Resolver

open Resolution

theorem bind_of_ok {ε σ α β : Type} {x : EStateM ε σ α} {f : α → EStateM ε σ β} {s t : σ} {a : α}
    (h : x s = .ok a t) : (x >>= f) s = f a t := by
  change EStateM.bind x f s = f a t
  rw [EStateM.bind, h]

theorem get_ok (s : State) : (get : Resolution State) s = .ok s s := rfl

/-- Alike states in which the expansions have used the same. -/
structure Same (s t : State) : Prop extends Alike s t where
  usage : s.usage = t.usage

theorem same_refl (s : State) : Same s s := ⟨alike_refl s, rfl⟩

theorem Same.trans {s t u : State} (h : Same s t) (h' : Same t u) : Same s u :=
  ⟨h.toAlike.trans h'.toAlike, h.usage.trans h'.usage⟩

theorem same_reported (s : State) (event : Event) : Same (s.reported event) s :=
  ⟨⟨rfl, rfl, rfl⟩, rfl⟩

/-! ### Parts of a step -/

section

variable {settings : Settings} {expand : Expander} {address : Int64} {statement : Statement}
  {s s' : State}

theorem resolvePlain_eq (address : Int64) (statement : Statement) (s : State) :
    resolvePlain address statement s =
      .ok (plainLine (s.labelled address statement) statement) (s.labelled address statement) := by
  unfold resolvePlain
  rw [bind_of_ok (defineLabel_eq address statement s)]
  rfl

-- What the resolver does with every line that has no rule of its own.
theorem resolvePlain_step (address : Int64) (statement : Statement) (s : State) :
    (do return (← resolvePlain address statement, Pending.nothing) : Resolution Step) s =
      .ok (plainLine (s.labelled address statement) statement, .nothing)
        (s.labelled address statement) := by
  rw [bind_of_ok (resolvePlain_eq address statement s)]
  rfl

theorem resolveAssignment_eq (label : Label) (statement : Statement) (s : State) :
    resolveAssignment label statement s = .ok () (s.assigned label statement) := by
  unfold resolveAssignment State.assigned
  cases statement.operands with
  | nil => rfl
  | cons operand operands =>
    dsimp only [List.head?_cons, Option.bind_some]
    rw [bind_of_ok (get_ok s)]
    cases Expression.value? (s.symbols[·]?) operand.text <;> rfl

theorem resolveRepeat_of_ok {start : Statement} {body : List Statement} {text : Bytes}
    {copies : List (List Line)}
    (run : repeatFrom expand body (repeatCount s.symbols start).toInt.toNat address []
      (s.reported (.blockRepeated (repeatCount s.symbols start) body.length)) = .ok copies s') :
    resolveRepeat expand address start body text s =
      .ok (.ofExpansion text s'.bss copies.reverse.flatten) s' := by
  unfold resolveRepeat
  rw [bind_of_ok (get_ok s)]
  have reported : report (.blockRepeated (repeatCount s.symbols start) body.length) s =
      .ok () (s.reported (.blockRepeated (repeatCount s.symbols start) body.length)) := rfl
  rw [bind_of_ok reported, bind_of_ok run]
  rfl

/-! ### Steps -/

theorem begun_of_isPlain (own : IsPlain statement) : begun statement = .nothing := by
  unfold IsPlain at own
  cases spelled : statement.opcode with
  | none => rw [begun, Statement.directive?, spelled]
  | some opcode =>
    rw [spelled] at own
    dsimp only at own
    cases operation : opcode.operation with
    | instruction | invocation => rw [begun, directive?_eq_none spelled (by simp [operation])]
    | directive directive =>
      rw [operation] at own
      rw [begun, directive?_of_operation spelled operation]
      cases directive with
      | beginMacro => exact absurd rfl own.1
      | beginRepeat => exact absurd rfl own.2.1
      | _ => rfl

theorem resolveDirective_plain {directive : Directive} (notMacro : directive ≠ .beginMacro)
    (notBlock : directive ≠ .beginRepeat) (notSection : directive.isSection = false)
    (notBound : ∀ spelling, directive = .assign spelling → statement.label = none) :
    resolveDirective address directive statement s =
      .ok (plainLine (s.labelled address statement) statement, .nothing)
        (s.labelled address statement) := by
  unfold resolveDirective
  cases directive with
  | assign spelling =>
    rw [notBound spelling rfl]
    exact resolvePlain_step address statement s
  | beginMacro => exact absurd rfl notMacro
  | beginRepeat => exact absurd rfl notBlock
  | namedSection | segment => cases notSection
  | dc | db | dw | dl | dcb | ds | endMacro | endRepeat | inert =>
    exact resolvePlain_step address statement s

theorem step_plain (own : IsPlain statement) :
    step settings expand ⟨address, .nothing⟩ statement s =
      .ok (plainLine (s.labelled address statement) statement, .nothing)
        (s.labelled address statement) := by
  unfold IsPlain at own
  cases spelled : statement.opcode with
  | none =>
    rw [spelled] at own
    unfold step resolveStatement
    simp only [spelled, own, if_true]
    exact resolvePlain_step address statement s
  | some opcode =>
    rw [spelled] at own
    dsimp only at own
    cases operation : opcode.operation with
    | instruction mnemonic =>
      unfold step resolveStatement
      simp only [spelled, operation]
      exact resolvePlain_step address statement s
    | invocation name =>
      rw [operation] at own
      exact own.elim
    | directive directive =>
      rw [operation] at own
      rw [step_directive (directive?_of_operation spelled operation)]
      cases directive with
      | assign spelling =>
        exact resolveDirective_plain nofun nofun rfl fun _ _ => own
      | dc | db | dw | dl | dcb | ds | namedSection | segment | beginMacro | endMacro | beginRepeat
      | endRepeat | inert => exact resolveDirective_plain own.1 own.2.1 own.2.2 nofun

theorem step_assigned {spelling : Assignment} {label : Label}
    (directive : statement.directive? = some (.assign spelling))
    (name : statement.label = some label) :
    step settings expand ⟨address, .nothing⟩ statement s =
      .ok (.blank statement.text, .nothing) (s.assigned label statement) := by
  rw [step_directive directive]
  unfold resolveDirective
  rw [name]
  exact bind_of_ok (resolveAssignment_eq label statement s)

theorem step_switched {directive : Directive} (spelled : statement.directive? = some directive)
    (sectional : directive.isSection = true) :
    step settings expand ⟨address, .nothing⟩ statement s =
      .ok (.blank statement.text, .nothing)
        (s.switched (selectsBss directive statement.operands)) := by
  rw [step_directive spelled]
  cases directive with
  | namedSection | segment => rfl
  | dc | db | dw | dl | dcb | ds | assign | beginMacro | endMacro | beginRepeat | endRepeat
  | inert => cases sectional

theorem step_ignored {opcode : Opcode} {name : Bytes} (spelled : statement.opcode = some opcode)
    (invokes : opcode.operation = .invocation name) (unknown : s.macros[name]? = none) :
    ∃ t, step settings expand ⟨address, .nothing⟩ statement s =
      .ok (.blank statement.text, .nothing) t ∧ Same t (s.labelled address statement) := by
  unfold step resolveStatement
  simp only [spelled, invokes]
  rw [bind_of_ok (defineLabel_eq address statement s)]
  unfold resolveInvocation
  simp only [bind_assoc]
  rw [bind_of_ok (get_ok _), State.labelled_macros, unknown]
  cases settings.isLastPass with
  | true => exact ⟨_, rfl, same_reported _ (.macroUndefined name)⟩
  | false => exact ⟨_, rfl, same_refl _⟩

theorem step_invoked {opcode : Opcode} {name : Bytes} {body : List Statement} {lines : List Line}
    (spelled : statement.opcode = some opcode) (invokes : opcode.operation = .invocation name)
    (known : s.macros[name]? = some body)
    (run : expand address
      (body.map fun b => .ofLine (substitute (statement.operands.map (·.text)) b.text))
      (s.labelled address statement) = .ok lines s') :
    step settings expand ⟨address, .nothing⟩ statement s =
      .ok (.ofExpansion statement.text s'.bss lines, .nothing) s' := by
  unfold step resolveStatement
  simp only [spelled, invokes]
  rw [bind_of_ok (defineLabel_eq address statement s)]
  unfold resolveInvocation
  simp only [bind_assoc]
  rw [bind_of_ok (get_ok _), State.labelled_macros, known]
  simp only [bind_assoc]
  rw [bind_of_ok run]
  rfl

theorem step_collected {pending : Pending} (collecting : pending ≠ .nothing)
    (unfinished : pending.after statement ≠ .nothing) :
    step settings expand ⟨address, pending⟩ statement s =
      .ok (.blank statement.text, pending.after statement) s := by
  unfold step
  cases pending with
  | nothing => exact absurd rfl collecting
  | macroBody name body =>
    simp only [Pending.after] at unfinished ⊢
    split
    · rename_i ends
      rw [if_pos ends] at unfinished
      exact absurd rfl unfinished
    · rfl
  | repeatBody start body nested =>
    simp only [Pending.after] at unfinished ⊢
    cases spelled : statement.directive? with
    | none => rfl
    | some directive =>
      rw [spelled] at unfinished
      cases directive with
      | endRepeat =>
        cases nested with
        | zero => exact absurd rfl unfinished
        | succ nested => rfl
      | dc | db | dw | dl | dcb | ds | assign | namedSection | segment | beginMacro | endMacro
      | beginRepeat | inert => rfl

theorem step_inert
    (inert : statement.opcode = none ∧ statement.label = none ∨
      statement.directive? = some .beginMacro ∧ macroName? statement = none ∨
      statement.directive? = some .beginRepeat) :
    step settings expand ⟨address, .nothing⟩ statement s =
      .ok (.blank statement.text, begun statement) s := by
  rcases inert with ⟨empty, unlabelled⟩ | ⟨begins, nameless⟩ | begins
  · unfold step resolveStatement
    simp only [empty, unlabelled, begun, Statement.directive?]
    rfl
  · rw [step_directive begins, begun, begins]
    simp only [resolveDirective, nameless]
    rfl
  · rw [step_beginRepeat begins, begun, begins]

/-- Every rule is carried out, up to the reports. -/
theorem Stepped.carriedOut {frame : Frame} {line : Line}
    (h : Stepped settings expand frame statement s line s') :
    ∃ t, step settings expand frame statement s =
      .ok (line, frame.pending.after statement) t ∧ Same t s' := by
  obtain ⟨address, pending⟩ := frame
  cases h with
  | collected collecting unfinished =>
    exact ⟨s, step_collected collecting unfinished, same_refl s⟩
  | macroEnded here ends =>
    cases here
    refine ⟨_, step_endMacro ends |>.trans ?_, same_refl _⟩
    simp [Pending.after, ends]
  | repeatEnded here ends run =>
    cases here
    refine ⟨s', ?_, same_refl s'⟩
    rw [step_endRepeat ends, bind_of_ok (resolveRepeat_of_ok run)]
    simp only [Pending.after, ends]
    rfl
  | blank here inert =>
    cases here
    exact ⟨s, step_inert inert, same_refl s⟩
  | plain here own =>
    cases here
    refine ⟨_, (step_plain own).trans ?_, same_refl _⟩
    rw [Pending.after, begun_of_isPlain own]
  | assigned here directive name =>
    cases here
    refine ⟨_, (step_assigned directive name).trans ?_, same_refl _⟩
    simp only [Pending.after, begun, directive]
  | macroBegun here directive named =>
    cases here
    refine ⟨_, (step_beginMacro directive named).trans ?_, same_refl _⟩
    simp only [Pending.after, begun, directive, named]
  | @switched directive here spelled sectional =>
    cases here
    refine ⟨_, (step_switched spelled sectional).trans ?_, same_refl _⟩
    rw [Pending.after, begun_eq_nothing]
    all_goals
      rw [spelled]
      rintro ⟨rfl⟩
      cases sectional
  | @ignored opcode name s' here spelled invokes unknown after =>
    cases here
    obtain ⟨t, stepped, same⟩ : ∃ t, step settings expand ⟨address, .nothing⟩ statement s =
        .ok (.blank statement.text, .nothing) t ∧ Same t (s.labelled address statement) :=
      step_ignored spelled invokes unknown
    have nothing : begun statement = .nothing := by
      rw [begun, directive?_eq_none spelled (by simp [invokes])]
    refine ⟨t, stepped.trans (by rw [Pending.after, nothing]), ?_⟩
    rcases after with rfl | rfl
    · exact same
    · exact ⟨⟨same.symbols, same.macros, same.bss⟩, same.usage⟩
  | invoked here spelled invokes known run =>
    cases here
    refine ⟨s', (step_invoked spelled invokes known run).trans ?_, same_refl s'⟩
    rw [Pending.after, begun, directive?_eq_none spelled (by simp [invokes])]

end

/-! ### Runs and passes -/

section

variable {settings : Settings} {s s' : State} {statements : List Statement} {lines : List Line}
  {last : Frame}

theorem finish_eq (pending : Pending) (s : State) :
    finish pending s = .ok () (s.finished pending) := by
  cases pending <;> rfl

theorem Runs.resolveFrom_ok {expand : Expander} {frame : Frame}
    (h : Runs settings expand frame statements s lines last s') (done : List Line) :
    resolveFrom settings expand frame done statements s =
      .ok (done.reverse ++ lines) (s'.finished last.pending) := by
  induction h generalizing done with
  | nil frame s =>
    rw [resolveFrom, bind_of_ok (finish_eq _ _), List.append_nil]
    rfl
  | @cons frame last statement statements s t s' line lines pending stepped rest ih =>
    rw [resolveFrom, bind_of_ok stepped]
    dsimp only
    rw [ih, List.reverse_cons, List.append_assoc]
    rfl

theorem poll_patient (patient : settings.patience = none) (s : State) :
    poll settings s = .ok () { s with polls := s.polls + 1 } := by
  rw [poll_eq, patient]
  rfl

theorem charge_within {depth count : Nat}
    (within : (s.usage.add depth count).lines ≤ settings.limits.lines) :
    charge settings depth count s = .ok () { s with usage := s.usage.add depth count } := by
  rw [charge_eq, if_neg (Nat.not_lt.mpr within)]

theorem Runs.expandAt_ok {levels : Nat} {address : Int64} (patient : settings.patience = none)
    (within : (s.usage.add (settings.limits.depth - levels) statements.length).lines ≤
      settings.limits.lines)
    (h : Runs settings (expandAt settings levels) ⟨address, .nothing⟩ statements
      (s.charged (settings.limits.depth - levels) statements.length) lines last s') :
    expandAt settings (levels + 1) address statements s =
      .ok lines (s'.finished last.pending) := by
  have charged : charge settings (settings.limits.depth - levels) statements.length
      { s with polls := s.polls + 1 } =
        .ok () (s.charged (settings.limits.depth - levels) statements.length) :=
    charge_within within
  rw [expandAt, bind_of_ok (poll_patient patient s), bind_of_ok charged]
  exact h.resolveFrom_ok []

theorem adaptExcept_of_ok {ε ε' σ α : Type} {f : ε → ε'} {x : EStateM ε σ α} {s s' : σ} {a : α}
    (h : x s = .ok a s') : EStateM.adaptExcept f x s = .ok a s' := by
  rw [EStateM.adaptExcept, h]

/-- A pass succeeds when its steps do. -/
theorem Passes.pass_ok {limits : Limits} {number : Nat} {isLastPass : Bool}
    (h : Passes ⟨limits, none, isLastPass⟩ statements (s.announced number statements.length) lines
      s') :
    pass limits none number isLastPass statements s = .ok lines s' := by
  obtain ⟨last, t, run, rfl⟩ := h
  have announced : (EStateM.adaptExcept Error.beforePass (do
      report (.pass number statements.length)
      poll ⟨limits, none, isLastPass⟩) : EStateM Error State Unit) s =
      .ok () (s.announced number statements.length) := rfl
  have resolved : resolveSource ⟨limits, none, isLastPass⟩ statements
      (s.announced number statements.length) = .ok lines (t.finished last.pending) :=
    run.resolveFrom_ok []
  unfold pass
  rw [bind_of_ok announced]
  exact adaptExcept_of_ok resolved

theorem resolve_of_passes {limits : Limits} {patience : Option Nat} {source : Bytes}
    {first : List Line} {t : State}
    (one : pass limits patience 1 false (Resolver.statements source) .initial = .ok first t)
    (two : pass limits patience 2 true (Resolver.statements source) t = .ok lines s') :
    resolve limits patience source = .ofResult (.ok lines s') := by
  have run : passes limits patience (Resolver.statements source) .initial = .ok lines s' :=
    (bind_of_ok one).trans two
  exact congrArg Outcome.ofResult run

end

end Asm68k.Resolver
