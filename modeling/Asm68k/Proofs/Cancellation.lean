import Asm68k.Command.Work
import Asm68k.Proofs.Bytes
import Asm68k.Proofs.Resolver.Thresholds

/-!
Work that is canceled leaves nothing half done. Under a patience `k` the resolver does exactly what
it does without one as long as that asks at most `k` times, and is canceled otherwise
(`cutOff_passes`); so a run of the command reports on the whole source or on nothing.
-/

namespace Asm68k.Resolver

open Resolution

/-- The computation `cut` is canceled where `whole` asks more than `k` times, and is the same
elsewhere. -/
structure CutOff {ε α : Type} (canceled : ε → Prop) (k : Nat) (whole cut : EStateM ε State α) :
    Prop where
  polls_le (s : State) : s.polls ≤ (stateOf (whole s)).polls
  same ⦃s : State⦄ : (stateOf (whole s)).polls ≤ k → cut s = whole s
  canceled ⦃s : State⦄ : s.polls ≤ k → k < (stateOf (whole s)).polls →
    ∃ e t, cut s = .error e t ∧ canceled e

section

variable {ε ε' α β : Type} {canceled : ε → Prop} {canceled' : ε' → Prop} {k : Nat}

theorem bind_of_error {x : EStateM ε State α} {f : α → EStateM ε State β} {s t : State} {e : ε}
    (h : x s = .error e t) : (x >>= f) s = .error e t := by
  change EStateM.bind x f s = _
  rw [EStateM.bind, h]

theorem cutOff_self {x : EStateM ε State α} (silent : ∀ s, (stateOf (x s)).polls = s.polls) :
    CutOff canceled k x x where
  polls_le s := Nat.le_of_eq (silent s).symm
  same _ _ := rfl
  canceled s patient asked := by
    have silent := silent s
    omega

theorem CutOff.bind {whole cut : EStateM ε State α} {f g : α → EStateM ε State β}
    (first : CutOff canceled k whole cut) (rest : ∀ a, CutOff canceled k (f a) (g a)) :
    CutOff canceled k (whole >>= f) (cut >>= g) where
  polls_le s := by
    have asked := first.polls_le s
    cases h : whole s with
    | error e t =>
      rw [h] at asked
      rw [bind_of_error h]
      exact asked
    | ok a t =>
      rw [h] at asked
      rw [bind_of_ok h]
      exact Nat.le_trans asked ((rest a).polls_le t)
  same s within := by
    cases h : whole s with
    | error e t =>
      rw [bind_of_error h] at within ⊢
      have same : cut s = whole s := first.same (by rw [h]; exact within)
      exact bind_of_error (same.trans h)
    | ok a t =>
      rw [bind_of_ok h] at within ⊢
      have before : t.polls ≤ k := Nat.le_trans ((rest a).polls_le t) within
      have same : cut s = whole s := first.same (by rw [h]; exact before)
      rw [bind_of_ok (same.trans h)]
      exact (rest a).same within
  canceled s patient asked := by
    by_cases before : (stateOf (whole s)).polls ≤ k
    · have same := first.same before
      cases h : whole s with
      | error e t =>
        rw [bind_of_error h] at asked
        rw [h] at before
        exact absurd before (Nat.not_le.mpr asked)
      | ok a t =>
        rw [bind_of_ok h] at asked
        rw [h] at before same
        rw [bind_of_ok same]
        exact (rest a).canceled before asked
    · obtain ⟨e, t, stopped, why⟩ := first.canceled patient (Nat.not_le.mp before)
      exact ⟨e, t, bind_of_error stopped, why⟩

theorem CutOff.adaptExcept {whole cut : EStateM ε State α} {f : ε → ε'}
    (h : CutOff canceled k whole cut) (wraps : ∀ e, canceled e → canceled' (f e)) :
    CutOff canceled' k (EStateM.adaptExcept f whole) (EStateM.adaptExcept f cut) where
  polls_le s := by
    rw [stateOf_adaptExcept]
    exact h.polls_le s
  same s within := by
    rw [stateOf_adaptExcept] at within
    rw [EStateM.adaptExcept, EStateM.adaptExcept, h.same within]
  canceled s patient asked := by
    rw [stateOf_adaptExcept] at asked
    obtain ⟨e, t, stopped, why⟩ := h.canceled patient asked
    refine ⟨f e, t, ?_, wraps e why⟩
    rw [EStateM.adaptExcept, stopped]

end

/-! ### The resolver -/

section

variable (limits : Limits) (isLastPass : Bool) (k : Nat)

theorem cutOff_congruence : Congruence fun _ => CutOff (· = .canceled) k where
  quiet quiet := cutOff_self fun s => by
    obtain ⟨a, s', ok, polls, -⟩ := quiet s
    rw [ok]
    exact polls
  bind first rest := first.bind rest

theorem cutOff_poll : CutOff (· = .canceled) k (poll ⟨limits, none, isLastPass⟩)
    (poll ⟨limits, some k, isLastPass⟩) := by
  have whole (s : State) : poll ⟨limits, none, isLastPass⟩ s =
      .ok () { s with polls := s.polls + 1 } := poll_patient rfl s
  constructor
  · intro s
    rw [whole]
    exact Nat.le_succ _
  · intro s within
    rw [whole] at within ⊢
    simp only [stateOf] at within
    have goesOn : ¬ k ≤ s.polls := by omega
    rw [poll_eq, isCanceled, if_neg (by simpa using goesOn)]
  · intro s patient asked
    rw [whole] at asked
    simp only [stateOf] at asked
    have stops : k ≤ s.polls := by omega
    refine ⟨.canceled, { s with polls := s.polls + 1 }, ?_, rfl⟩
    rw [poll_eq, isCanceled, if_pos (by simpa using stops)]

theorem cutOff_charge (settings settings' : Settings) (depth count : Nat)
    (same : settings.limits = settings'.limits) :
    CutOff (· = .canceled) k (charge settings depth count) (charge settings' depth count) := by
  have equal : charge settings depth count = charge settings' depth count := by
    funext s
    rw [charge_eq, charge_eq, same]
  rw [equal]
  refine cutOff_self fun s => ?_
  rw [charge_eq]
  split <;> rfl

theorem cutOff_expandAt (levels : Nat) (address : Int64) (statements : List Statement) :
    CutOff (· = .canceled) k (expandAt ⟨limits, none, isLastPass⟩ levels address statements)
      (expandAt ⟨limits, some k, isLastPass⟩ levels address statements) := by
  induction levels generalizing address statements with
  | zero =>
    refine (cutOff_poll limits isLastPass k).bind fun _ => cutOff_self fun s => ?_
    rfl
  | succ levels ih =>
    refine (cutOff_poll limits isLastPass k).bind fun _ => ?_
    refine (cutOff_charge k _ _ _ _ rfl).bind fun _ => ?_
    refine (cutOff_congruence k).resolveFrom ?_ ih _ _ _
    rfl

theorem cutOff_resolveSource (statements : List Statement) :
    CutOff (· = .canceled) k (resolveSource ⟨limits, none, isLastPass⟩ statements)
      (resolveSource ⟨limits, some k, isLastPass⟩ statements) := by
  refine (cutOff_self fun s => ?_).bind fun _ => ?_
  · rfl
  · have below := cutOff_expandAt limits isLastPass k limits.depth
    refine (cutOff_congruence k).resolveFrom ?_ below _ _ _
    rfl

theorem cutOff_pass (number : Nat) (statements : List Statement) :
    CutOff (·.failure? = some .canceled) k (pass limits none number isLastPass statements)
      (pass limits (some k) number isLastPass statements) := by
  have announced := (cutOff_congruence k).bind
    ((cutOff_congruence k).quiet (quiet_report (.pass number statements.length)))
    fun _ => cutOff_poll limits isLastPass k
  have resolved := cutOff_resolveSource limits isLastPass k statements
  refine (announced.adaptExcept fun e why => ?_).bind fun _ => resolved.adaptExcept fun e why => ?_
  · rw [why]
    rfl
  · rw [why]
    rfl

theorem cutOff_passes (statements : List Statement) :
    CutOff (·.failure? = some .canceled) k (passes limits none statements)
      (passes limits (some k) statements) :=
  (cutOff_pass limits false k 1 statements).bind fun _ => cutOff_pass limits true k 2 statements

/-- The error says that the work was canceled. -/
def Error.IsCanceled (error : Error) : Prop := error.failure? = some .canceled

theorem resolve_same {source : Bytes} (patient : (resolve limits none source).polls ≤ k) :
    resolve limits (some k) source = resolve limits none source := by
  rw [polls_resolve] at patient
  exact congrArg Outcome.ofResult ((cutOff_passes limits k (statements source)).same patient)

theorem resolve_canceled {source : Bytes} (asked : k < (resolve limits none source).polls) :
    ∃ error, (resolve limits (some k) source).result = .error error ∧ error.IsCanceled := by
  rw [polls_resolve] at asked
  have patient : State.initial.polls ≤ k := Nat.zero_le k
  obtain ⟨error, t, stopped, why⟩ :=
    (cutOff_passes limits k (statements source)).canceled patient asked
  refine ⟨error, ?_, why⟩
  unfold resolve EStateM.run
  rw [stopped]
  rfl

theorem not_isCanceled {source : Bytes} {error : Error}
    (h : (resolve limits none source).result = .error error) : ¬ error.IsCanceled := by
  obtain ⟨number, failure, exceeds, failed⟩ := resolve_error (by rw [h]; rfl)
  rw [failed] at h
  cases h
  rintro ⟨rfl⟩
  rcases exceeds with exceeds | exceeds <;> cases exceeds

end

end Asm68k.Resolver

namespace Asm68k.Command

open Resolver Resolution

/-- The error says that the work was canceled, by the resolver or just after it. -/
def RunError.IsCanceled : RunError → Prop
  | .canceled => True
  | .unresolved error => error.IsCanceled
  | .badParts _ | .unreadable _ _ | .inputUnreadable _ | .noInput | .unwritable _ => False

section

variable {options : Options} {around : Surroundings} {parts : Report.Include} {source : Bytes}

/-- A run with a known choice of parts and a source that can be read. -/
theorem run_eq (known : Report.Include.ofList options.parts = .ok parts)
    (read : around.source options.input = .ok source) (patience : Option Nat) :
    run options { around with patience } =
      match (resolve options.limits patience source).result with
      | .error error => .error (.unresolved error)
      | .ok lines =>
        if isCanceled patience (resolve options.limits patience source).polls then .error .canceled
        else around.accept (options.format around.outputIsTerminal)
          (Report.render (options.format around.outputIsTerminal) parts lines
            (Totals.ofLines lines)) := by
  have same : ({ around with patience } : Surroundings).source options.input = .ok source := read
  unfold run
  rw [known, same]
  dsimp only [Except.mapError, bind, Except.bind]
  cases (resolve options.limits patience source).result with
  | error error => rfl
  | ok lines => cases isCanceled patience (resolve options.limits patience source).polls <;> rfl

/-- How often a run asks that is never told to stop: once more after a source that is resolved. -/
def checks (options : Options) (source : Bytes) : Nat :=
  let outcome := resolve options.limits none source
  outcome.polls + if outcome.result.isOk then 1 else 0

theorem run_canceled {k : Nat} (known : Report.Include.ofList options.parts = .ok parts)
    (read : around.source options.input = .ok source) (asked : k < checks options source) :
    ∃ error, run options { around with patience := some k } = .error error ∧
      error.IsCanceled := by
  rw [run_eq known read]
  by_cases during : k < (resolve options.limits none source).polls
  · obtain ⟨error, stopped, why⟩ := resolve_canceled options.limits k during
    rw [stopped]
    exact ⟨.unresolved error, rfl, why⟩
  · rw [resolve_same options.limits k (Nat.not_lt.mp during)]
    simp only [checks] at asked
    cases h : (resolve options.limits none source).result with
    | error error =>
      rw [h] at asked
      simp only [Except.isOk, Except.toBool, Bool.false_eq_true, if_false] at asked
      omega
    | ok lines =>
      rw [h] at asked
      have stops : k ≤ (resolve options.limits none source).polls := by
        simp only [Except.isOk, Except.toBool, if_true] at asked
        omega
      refine ⟨.canceled, ?_, trivial⟩
      dsimp only
      rw [isCanceled, if_pos (by simpa using stops)]

theorem run_same {k : Nat} (known : Report.Include.ofList options.parts = .ok parts)
    (read : around.source options.input = .ok source) (patient : checks options source ≤ k) :
    run options { around with patience := some k } =
      run options { around with patience := none } := by
  have during : (resolve options.limits none source).polls ≤ k :=
    Nat.le_trans (Nat.le_add_right _ _) patient
  rw [run_eq known read, run_eq known read, resolve_same options.limits k during]
  simp only [checks] at patient
  cases h : (resolve options.limits none source).result with
  | error error => rfl
  | ok lines =>
    rw [h] at patient
    have goesOn : ¬ k ≤ (resolve options.limits none source).polls := by
      simp only [Except.isOk, Except.toBool, if_true] at patient
      omega
    dsimp only
    rw [isCanceled, isCanceled, if_neg (by simpa using goesOn), if_neg Bool.false_ne_true]

theorem run_not_canceled {error : RunError}
    (known : Report.Include.ofList options.parts = .ok parts)
    (read : around.source options.input = .ok source)
    (h : run options { around with patience := none } = .error error) : ¬ error.IsCanceled := by
  rw [run_eq known read] at h
  cases result : (resolve options.limits none source).result with
  | error inner =>
    rw [result] at h
    cases h
    exact not_isCanceled options.limits result
  | ok lines =>
    rw [result] at h
    dsimp only at h
    rw [isCanceled, if_neg Bool.false_ne_true, Surroundings.accept] at h
    split at h
    · cases h
    · cases h
      exact id

end

/-- Cancellation never gives a part of a result or another one. With a patience of `k` the resolver
is canceled exactly when it would otherwise ask more often, and does all the same otherwise. So does
a run of the command, which asks once more before it reports. -/
theorem canceled_or_whole (k : Nat) :
    (∀ limits source,
      ((∃ error, (resolve limits (some k) source).result = .error error ∧ error.IsCanceled) ↔
        k < (resolve limits none source).polls) ∧
      ((resolve limits none source).polls ≤ k →
        resolve limits (some k) source = resolve limits none source)) ∧
    ∀ (options : Options) (around : Surroundings) (parts : Report.Include) (source : Bytes),
      Report.Include.ofList options.parts = .ok parts → around.source options.input = .ok source →
      ((∃ error, run options { around with patience := some k } = .error error ∧
          error.IsCanceled) ↔ k < checks options source) ∧
      (checks options source ≤ k →
        run options { around with patience := some k } =
          run options { around with patience := none }) := by
  refine ⟨fun limits source => ⟨⟨?_, resolve_canceled limits k⟩, resolve_same limits k⟩, ?_⟩
  · rintro ⟨error, failed, why⟩
    refine Nat.lt_of_not_le fun patient => ?_
    rw [resolve_same limits k patient] at failed
    exact not_isCanceled limits failed why
  · intro options around parts source known read
    refine ⟨⟨?_, run_canceled known read⟩, run_same known read⟩
    rintro ⟨error, failed, why⟩
    refine Nat.lt_of_not_le fun patient => ?_
    rw [run_same known read patient] at failed
    exact run_not_canceled known read failed why

/-- A block of two copies, so that each pass asks three times. -/
def twoCopies : Bytes := Bytes.ofLines ([" rept 2", " dc.b 1", " endr"].map Bytes.ofString)

def fromInput (input : Bytes) (patience : Option Nat) : Surroundings :=
  { fileContents := fun _ => .error .missing
    standardInput := input
    inputIsTerminal := false
    outputIsTerminal := false
    patience
    refusal := none }

theorem canceled_or_whole_twoCopies :
    (∃ error, (resolve .standard (some 5) twoCopies).result = .error error ∧ error.IsCanceled) ∧
    resolve .standard (some 6) twoCopies = resolve .standard none twoCopies ∧
    (∃ error, run {} (fromInput twoCopies (some 6)) = .error error ∧ error.IsCanceled) ∧
    run {} (fromInput twoCopies (some 7)) = run {} (fromInput twoCopies none) := by
  obtain ⟨polls, checked, parsed⟩ : (resolve .standard none twoCopies).polls = 6 ∧
      checks {} twoCopies = 7 ∧
      (Report.Include.ofList (Bytes.ofString Report.Include.standardList)).isOk = true := by
    decide +kernel
  obtain ⟨parts, known⟩ := exists_ok parsed
  have read : (fromInput twoCopies none).source [] = .ok twoCopies := rfl
  have five := (canceled_or_whole 5).1 .standard twoCopies
  have six := (canceled_or_whole 6).1 .standard twoCopies
  rw [polls] at five six
  have sixRun := (canceled_or_whole 6).2 {} (fromInput twoCopies none) parts twoCopies known read
  have sevenRun := (canceled_or_whole 7).2 {} (fromInput twoCopies none) parts twoCopies known read
  rw [checked] at sixRun sevenRun
  exact ⟨five.1.mpr (by decide), six.2 (by decide), sixRun.1.mpr (by decide),
    sevenRun.2 (by decide)⟩

end Asm68k.Command
