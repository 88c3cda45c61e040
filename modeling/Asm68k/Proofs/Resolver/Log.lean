import Asm68k.Proofs.Resolver.Execution
import Asm68k.Proofs.Statement.Evaluated

/-!
What happens during a pass: the names that are looked up, the macros that are invoked and the
expansions that are made, in order. A log follows the steps of the resolver and counts nothing;
that the resolver counts what is in the log is `Passes.spent`.
-/

namespace Asm68k.Resolver

open Resolution

inductive Happening where
  /-- An evaluation looks up a name, which has a value at that moment or not. -/
  | lookup (name : Bytes) (known : Bool)
  | invocation (name : Bytes) (known : Bool)
  /-- Some statements are expanded. The source itself is at depth zero. -/
  | expansion (depth statements : Nat)
  deriving DecidableEq, Repr

namespace Happening

def depth : Happening → Nat
  | .expansion depth _ => depth
  | .lookup _ _ | .invocation _ _ => 0

def cost : Happening → Nat
  | .expansion _ statements => max statements 1
  | .lookup _ _ | .invocation _ _ => 0

end Happening

abbrev Log := List Happening

namespace Log

/-- The depth of the deepest expansion, or zero without one. -/
def depth (log : Log) : Nat := (log.map Happening.depth).foldr max 0

def cost (log : Log) : Nat := (log.map Happening.cost).foldr (· + ·) 0

end Log

/-! ### Following the resolver -/

/-- The log of an expansion that begins at an address. -/
abbrev Logger := Int64 → List Statement → State → Log

/-- The evaluation of some expressions. -/
def lookupLog (symbols : Symbols) (texts : List Bytes) : Log :=
  (texts.flatMap (Expression.lookups (symbols[·]?))).map fun name =>
    .lookup name symbols[name]?.isSome

def copiesLog (expand : Expander) (log : Logger) (body : List Statement) :
    Nat → Int64 → State → Log
  | 0, _, _ => []
  | count + 1, address, s =>
    log address body s ++
      match expand address body s with
      | .ok lines t =>
        copiesLog expand log body count (address + (Totals.ofLines lines).space.bytes) t
      | .error _ _ => []

/-- The number of copies is evaluated when the block ends. -/
def repeatLog (expand : Expander) (log : Logger) (address : Int64) (start : Statement)
    (body : List Statement) (s : State) : Log :=
  let count := repeatCount s.symbols start
  lookupLog s.symbols (Statement.firstText start.operands) ++
    copiesLog expand log body count.toInt.toNat address
      (s.reported (.blockRepeated count body.length))

def invocationLog (log : Logger) (address : Int64) (name : Bytes) (statement : Statement)
    (s : State) : Log :=
  .invocation name s.macros[name]?.isSome ::
    match s.macros[name]? with
    | none => []
    | some body =>
      log address
        (body.map fun b => .ofLine (substitute (statement.operands.map (·.text)) b.text))
        (s.labelled address statement)

/-- A statement that is not collected. Its label is known to its own expressions, unless it is
assigned to. -/
def statementLog (log : Logger) (address : Int64) (statement : Statement) (s : State) : Log :=
  match statement.opcode with
  | some ⟨.invocation name, _, _⟩ => invocationLog log address name statement s
  | some ⟨.directive .beginRepeat, _, _⟩ => []
  | some ⟨.directive (.assign _), _, _⟩ => lookupLog s.symbols statement.evaluated
  | _ => lookupLog (s.labelled address statement).symbols statement.evaluated

def stepLog (expand : Expander) (log : Logger) (frame : Frame) (statement : Statement)
    (s : State) : Log :=
  match frame.pending with
  | .nothing => statementLog log frame.address statement s
  | .repeatBody start body 0 =>
    if statement.directive? = some .endRepeat then
      repeatLog expand log frame.address start body.toList s
    else []
  | _ => []

def sequenceLog (settings : Settings) (expand : Expander) (log : Logger) :
    Frame → List Statement → State → Log
  | _, [], _ => []
  | frame, statement :: statements, s =>
    stepLog expand log frame statement s ++
      match step settings expand frame statement s with
      | .ok (line, pending) t =>
        sequenceLog settings expand log ⟨frame.address + line.bytes, pending⟩ statements t
      | .error _ _ => []

/-- The log of an expansion at a depth, when `levels` more levels are allowed. -/
def expansionLog (settings : Settings) : (depth levels : Nat) → Logger
  | _, 0, _, _, _ => []
  | depth, levels + 1, address, statements, s =>
    .expansion depth statements.length ::
      sequenceLog settings (expandAt settings levels) (expansionLog settings (depth + 1) levels)
        ⟨address, .nothing⟩ statements
        (s.charged (settings.limits.depth - levels) statements.length)

def sourceLog (settings : Settings) (statements : List Statement) (s : State) : Log :=
  sequenceLog settings (expandAt settings settings.limits.depth)
    (expansionLog settings 1 settings.limits.depth) ⟨0, .nothing⟩ statements s.fresh

def passLog (limits : Limits) (patience : Option Nat) (number : Nat) (isLastPass : Bool)
    (statements : List Statement) (s : State) : Log :=
  sourceLog { limits, patience, isLastPass } statements (s.announced number statements.length)

/-! ### Logs of single steps -/

section

variable {expand : Expander} {log : Logger} {address : Int64} {statement : Statement} {s : State}

theorem statementLog_invocation {opcode : Opcode} {name : Bytes}
    (spelled : statement.opcode = some opcode) (invokes : opcode.operation = .invocation name) :
    statementLog log address statement s = invocationLog log address name statement s := by
  obtain ⟨operation, start, size⟩ := opcode
  cases invokes
  rw [statementLog, spelled]

theorem evaluated_of_directive {directive : Directive}
    (spelled : statement.directive? = some directive)
    (evaluates : directive.evaluates statement.label.isSome = true) :
    statement.evaluated = Statement.firstText statement.operands := by
  obtain ⟨⟨operation, start, size⟩, here, ⟨rfl⟩⟩ := directive?_eq_some spelled
  rw [Statement.evaluated, here]
  simp only [evaluates, if_true]

theorem statementLog_assigned {spelling : Assignment}
    (directive : statement.directive? = some (.assign spelling)) :
    statementLog log address statement s = lookupLog s.symbols statement.evaluated := by
  obtain ⟨⟨operation, start, size⟩, spelled, assigns⟩ := directive?_eq_some directive
  cases assigns
  rw [statementLog, spelled]

theorem statementLog_plain (own : IsPlain statement) :
    statementLog log address statement s =
      lookupLog (s.labelled address statement).symbols statement.evaluated := by
  unfold IsPlain at own
  unfold statementLog
  split
  · rename_i spelled
    rw [spelled] at own
    exact own.elim
  · rename_i spelled
    rw [spelled] at own
    exact absurd rfl own.2.1
  · rename_i spelled
    rw [spelled] at own
    rw [State.labelled, own]
  · rfl

theorem stepLog_collected {pending : Pending} (collecting : pending ≠ .nothing)
    (unfinished : pending.after statement ≠ .nothing) :
    stepLog expand log ⟨address, pending⟩ statement s = [] := by
  unfold stepLog
  split
  · exact absurd ‹_› collecting
  · rename_i here
    cases here
    exact if_neg fun ends => unfinished (by simp [Pending.after, ends])
  · rfl

theorem stepLog_repeatEnded {start : Statement} {body : Array Statement}
    (ends : statement.directive? = some .endRepeat) :
    stepLog expand log ⟨address, .repeatBody start body 0⟩ statement s =
      repeatLog expand log address start body.toList s := if_pos ends

end

/-! ### Counting -/

namespace Usage

/-- What is used after the expansions of a log. -/
def after (usage : Usage) (log : Log) : Usage :=
  ⟨max usage.depth log.depth, usage.lines + log.cost⟩

theorem after_nil (usage : Usage) : usage.after [] = usage := by
  simp [after, Log.depth, Log.cost]

theorem after_cons (usage : Usage) (happening : Happening) (log : Log) :
    usage.after (happening :: log) = (usage.after [happening]).after log := by
  simp [after, Log.depth, Log.cost, Nat.max_assoc, Nat.add_assoc]

theorem after_append (usage : Usage) (log log' : Log) :
    usage.after (log ++ log') = (usage.after log).after log' := by
  induction log generalizing usage with
  | nil => rw [List.nil_append, after_nil]
  | cons happening log ih => rw [List.cons_append, after_cons, ih, ← after_cons]

theorem after_lookupLog (usage : Usage) (symbols : Symbols) (texts : List Bytes) :
    usage.after (lookupLog symbols texts) = usage := by
  unfold lookupLog
  induction texts.flatMap (Expression.lookups (symbols[·]?)) with
  | nil => exact usage.after_nil
  | cons name names ih =>
    rw [List.map_cons, after_cons]
    refine Eq.trans ?_ ih
    simp [after, Log.depth, Log.cost, Happening.depth, Happening.cost]

theorem after_invocation (usage : Usage) (name : Bytes) (known : Bool) (log : Log) :
    usage.after (.invocation name known :: log) = usage.after log := by
  simp [after, Log.depth, Log.cost, Happening.depth, Happening.cost]

theorem after_expansion (usage : Usage) (depth statements : Nat) (log : Log) :
    usage.after (.expansion depth statements :: log) = (usage.add depth statements).after log := by
  simp [after, add, Log.depth, Log.cost, Happening.depth, Happening.cost, Nat.max_assoc,
    Nat.add_assoc]

structure Fits (usage : Usage) (limits : Limits) : Prop where
  depth : usage.depth ≤ limits.depth
  lines : usage.lines ≤ limits.lines

theorem Fits.of_after {usage : Usage} {log : Log} {limits : Limits}
    (h : (usage.after log).Fits limits) : usage.Fits limits :=
  ⟨Nat.le_trans (Nat.le_max_left _ _) h.depth, Nat.le_trans (Nat.le_add_right _ _) h.lines⟩

end Usage

/-- Between two states the expansions of a log are counted, and the limits are kept. -/
structure Spent (limits : Limits) (s : State) (log : Log) (s' : State) : Prop where
  usage : s'.usage = s.usage.after log
  fits : s.usage.Fits limits → s'.usage.Fits limits

theorem Spent.append {limits : Limits} {s t s' : State} {log log' : Log}
    (h : Spent limits s log t) (h' : Spent limits t log' s') :
    Spent limits s (log ++ log') s' where
  usage := by rw [h'.usage, h.usage, Usage.after_append]
  fits := h'.fits ∘ h.fits

theorem Spent.silent {limits : Limits} {s s' : State} {log : Log} (same : s'.usage = s.usage)
    (nothing : s.usage.after log = s.usage) : Spent limits s log s' where
  usage := same.trans nothing.symm
  fits := by rw [same]; exact id

theorem Spent.fits_before {limits limits' : Limits} {s s' : State} {log : Log}
    (h : Spent limits s log s') (fits : s'.usage.Fits limits') : s.usage.Fits limits' := by
  rw [h.usage] at fits
  exact fits.of_after

/-- What an expander uses is in its log. -/
def Logged (limits : Limits) (expand : Expander) (log : Logger) : Prop :=
  ∀ ⦃address statements s lines s'⦄, expand address statements s = .ok lines s' →
    Spent limits s (log address statements s) s'

section

variable {settings : Settings} {limits : Limits} {expand : Expander} {log : Logger}
  {frame last : Frame} {statement : Statement} {statements : List Statement} {s s' : State}

theorem State.assigned_usage (s : State) (label : Label) (statement : Statement) :
    (s.assigned label statement).usage = s.usage := by
  unfold State.assigned
  split <;> rfl

theorem State.finished_usage (s : State) (pending : Pending) :
    (s.finished pending).usage = s.usage := by
  cases pending <;> rfl

-- Whatever is no invocation evaluates at most.
theorem after_statementLog {address : Int64} (usage : Usage)
    (own : ∀ name start size, statement.opcode ≠ some ⟨.invocation name, start, size⟩) :
    usage.after (statementLog log address statement s) = usage := by
  unfold statementLog
  split
  · exact absurd ‹_› (own _ _ _)
  · exact usage.after_nil
  · exact usage.after_lookupLog _ _
  · exact usage.after_lookupLog _ _

theorem copiesLog_spent (logged : Logged limits expand log) {body : List Statement} {count : Nat}
    {address : Int64} {copies result : List (List Line)}
    (h : repeatFrom expand body count address copies s = .ok result s') :
    Spent limits s (copiesLog expand log body count address s) s' := by
  induction count generalizing address copies s with
  | zero =>
    obtain ⟨rfl, rfl⟩ := pure_ok h
    exact .silent rfl (Usage.after_nil _)
  | succ count ih =>
    obtain ⟨lines, t, expanded, h⟩ := bind_ok h
    rw [copiesLog, expanded]
    exact (logged expanded).append (ih h)

theorem Stepped.spent (logged : Logged limits expand log) {line : Line}
    (h : Stepped settings expand frame statement s line s') :
    Spent limits s (stepLog expand log frame statement s) s' := by
  obtain ⟨address, pending⟩ := frame
  cases h with
  | collected collecting unfinished =>
    rw [stepLog_collected collecting unfinished]
    exact .silent rfl (Usage.after_nil _)
  | macroEnded here ends =>
    cases here
    exact .silent rfl (Usage.after_nil _)
  | repeatEnded here ends run =>
    cases here
    rw [stepLog_repeatEnded ends, repeatLog]
    refine Spent.append (.silent rfl (Usage.after_lookupLog _ _ _)) ?_
    obtain ⟨usage, fits⟩ := copiesLog_spent logged run
    exact ⟨usage, fits⟩
  | blank here inert =>
    cases here
    refine .silent rfl (after_statementLog _ ?_)
    rcases inert with ⟨empty, -⟩ | ⟨begins, -⟩ | begins
    · simp [empty]
    · exact no_invocation_of_directive begins
    · exact no_invocation_of_directive begins
  | plain here own =>
    cases here
    refine .silent (s.labelled_usage _ _) ?_
    rw [stepLog, statementLog_plain own]
    exact Usage.after_lookupLog _ _ _
  | assigned here directive name =>
    cases here
    exact .silent (s.assigned_usage _ _)
      (after_statementLog _ (no_invocation_of_directive directive))
  | macroBegun here directive named =>
    cases here
    exact .silent rfl (after_statementLog _ (no_invocation_of_directive directive))
  | switched here spelled sectional =>
    cases here
    exact .silent rfl (after_statementLog _ (no_invocation_of_directive spelled))
  | ignored here spelled invokes unknown after =>
    cases here
    have same : s'.usage = s.usage := by
      rcases after with rfl | rfl <;> exact s.labelled_usage _ _
    refine .silent same ?_
    rw [stepLog, statementLog_invocation spelled invokes, invocationLog, unknown,
      Usage.after_invocation, Usage.after_nil]
  | invoked here spelled invokes known run =>
    cases here
    obtain ⟨usage, fits⟩ := logged run
    rw [s.labelled_usage] at usage fits
    refine ⟨?_, fits⟩
    rw [stepLog, statementLog_invocation spelled invokes, invocationLog, known,
      Usage.after_invocation, usage]

theorem sequenceLog_cons {line : Line} {pending : Pending} {t : State}
    (h : step settings expand frame statement s = .ok (line, pending) t) :
    sequenceLog settings expand log frame (statement :: statements) s =
      stepLog expand log frame statement s ++
        sequenceLog settings expand log ⟨frame.address + line.bytes, pending⟩ statements t := by
  rw [sequenceLog, h]

theorem Runs.spent (logged : Logged limits expand log) {lines : List Line}
    (h : Runs settings expand frame statements s lines last s') :
    Spent limits s (sequenceLog settings expand log frame statements s) s' := by
  induction h with
  | nil => exact .silent rfl (Usage.after_nil _)
  | cons stepped rest ih =>
    rw [sequenceLog_cons stepped]
    exact ((step_stepped stepped).1.spent logged).append ih

theorem expandAt_within {levels : Nat} {address : Int64} {lines : List Line}
    (h : expandAt settings (levels + 1) address statements s = .ok lines s') :
    (s.usage.add (settings.limits.depth - levels) statements.length).lines ≤
      settings.limits.lines := by
  obtain ⟨_, _, polled, h⟩ := bind_ok h
  obtain ⟨_, _, charged, h⟩ := bind_ok h
  have admitted := (charge_ok charged).1
  rw [poll_ok polled] at admitted
  exact admitted

/-- The expansions of a pass are logged at their depth: the levels below it are still allowed. -/
theorem expandAt_logged (settings : Settings) {depth levels : Nat}
    (sum : depth + levels = settings.limits.depth) :
    Logged settings.limits (expandAt settings levels)
      (expansionLog settings (depth + 1) levels) := by
  induction levels generalizing depth with
  | zero =>
    intro address statements s lines s' h
    obtain ⟨inner, _, _, levels, _⟩ := expandAt_runs h
    cases levels
  | succ levels ih =>
    intro address statements s lines s' h
    have within := expandAt_within h
    obtain ⟨_, last, t, ⟨rfl⟩, run, rfl⟩ := expandAt_runs h
    have here : settings.limits.depth - levels = depth + 1 := by omega
    rw [expansionLog]
    rw [here] at within run ⊢
    have deeper : depth + 1 + levels = settings.limits.depth := by omega
    obtain ⟨usage, fits⟩ := run.spent (ih deeper)
    refine ⟨?_, fun before => ?_⟩
    · rw [t.finished_usage, usage, Usage.after_expansion]
      rfl
    · rw [t.finished_usage]
      apply fits
      exact ⟨Nat.max_le.mpr ⟨before.depth, by omega⟩, within⟩

/-- After a pass the counters are those of its log, and they are within the limits. -/
theorem Passes.spent {lines : List Line} (h : Passes settings statements s lines s') :
    s'.usage = Usage.zero.after (sourceLog settings statements s) ∧
      s'.usage.Fits settings.limits := by
  obtain ⟨last, t, run, rfl⟩ := h
  have spent := run.spent (expandAt_logged settings (Nat.zero_add _))
  rw [t.finished_usage]
  exact ⟨spent.usage, spent.fits ⟨Nat.zero_le _, Nat.zero_le _⟩⟩

end

end Asm68k.Resolver
