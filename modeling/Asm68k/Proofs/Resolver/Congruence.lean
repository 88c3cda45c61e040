import Asm68k.Proofs.Resolver.Execution

/-!
What the expansions of a pass have in common with its other work, the whole pass has. A relation
between computations that holds of quiet ones and is kept by sequencing goes from the expanders to
the steps (`Congruence.step`) and to sequences of statements (`Congruence.resolveFrom`).
-/

namespace Asm68k.Resolver

open Resolution

/-- The state in which a computation ends, whether it fails or not. -/
def stateOf {ε σ α : Type} : EStateM.Result ε σ α → σ
  | .ok _ s | .error _ s => s

theorem stateOf_adaptExcept {ε ε' σ α : Type} (f : ε → ε') (x : EStateM ε σ α) (s : σ) :
    stateOf (EStateM.adaptExcept f x s) = stateOf (x s) := by
  unfold EStateM.adaptExcept
  cases x s <;> rfl

theorem polls_resolve (limits : Limits) (patience : Option Nat) (source : Bytes) :
    (resolve limits patience source).polls =
      (stateOf (passes limits patience (statements source) .initial)).polls := by
  unfold resolve EStateM.run
  cases passes limits patience (statements source) .initial <;> rfl

/-- The computation succeeds, asks nothing and charges nothing. -/
def Quiet {α : Type} (x : Resolution α) : Prop :=
  ∀ s, ∃ a s', x s = .ok a s' ∧ s'.polls = s.polls ∧ s'.usage = s.usage

structure Congruence (R : (α : Type) → Resolution α → Resolution α → Prop) : Prop where
  quiet {α : Type} {x : Resolution α} : Quiet x → R α x x
  bind {α β : Type} {x y : Resolution α} {f g : α → Resolution β} :
    R α x y → (∀ a, R β (f a) (g a)) → R β (x >>= f) (y >>= g)

/-! ### Quiet computations -/

section

variable {α β : Type}

theorem quiet_pure (a : α) : Quiet (pure a) := by
  intro s
  exact ⟨a, s, rfl, rfl, rfl⟩

theorem quiet_get : Quiet get := by
  intro s
  exact ⟨s, s, rfl, rfl, rfl⟩

theorem quiet_modify {f : State → State} (polls : ∀ s, (f s).polls = s.polls)
    (usage : ∀ s, (f s).usage = s.usage) : Quiet (modify f) := by
  intro s
  exact ⟨⟨⟩, f s, rfl, polls s, usage s⟩

theorem Quiet.bind {x : Resolution α} {f : α → Resolution β} (first : Quiet x)
    (rest : ∀ a, Quiet (f a)) : Quiet (x >>= f) := by
  intro s
  obtain ⟨a, t, hx, polls, usage⟩ := first s
  obtain ⟨b, s', hf, polls', usage'⟩ := rest a t
  exact ⟨b, s', (bind_of_ok hx).trans hf, polls'.trans polls, usage'.trans usage⟩

theorem quiet_report (event : Event) : Quiet (report event) :=
  quiet_modify (fun _ => rfl) fun _ => rfl

theorem quiet_define (name : Bytes) (value : Int64) : Quiet (define name value) :=
  quiet_modify (fun _ => rfl) fun _ => rfl

theorem quiet_defineMacro (name : Bytes) (body : List Statement) : Quiet (defineMacro name body) :=
  quiet_modify (fun _ => rfl) fun _ => rfl

theorem quiet_finish (pending : Pending) : Quiet (finish pending) := by
  cases pending with
  | nothing => exact quiet_pure ()
  | macroBody name body => exact (quiet_defineMacro _ _).bind fun _ => quiet_report _
  | repeatBody start body nested => exact quiet_report _

theorem quiet_defineLabel (address : Int64) (statement : Statement) :
    Quiet (defineLabel address statement) := by
  unfold defineLabel
  split
  · exact quiet_define _ _
  · exact quiet_pure ()

theorem quiet_resolvePlain (address : Int64) (statement : Statement) :
    Quiet (resolvePlain address statement) :=
  (quiet_defineLabel address statement).bind fun _ => quiet_get.bind fun _ => quiet_pure _

theorem quiet_resolveAssignment (label : Label) (statement : Statement) :
    Quiet (resolveAssignment label statement) := by
  unfold resolveAssignment
  split
  · exact quiet_pure ()
  · refine quiet_get.bind fun s => ?_
    split
    · exact quiet_define _ _
    · exact quiet_pure ()

theorem quiet_resolveDirective (address : Int64) (directive : Directive) (statement : Statement) :
    Quiet (resolveDirective address directive statement) := by
  have switched (bss : Bool) : Quiet (modify fun s => { s with bss }) :=
    quiet_modify (fun _ => rfl) fun _ => rfl
  unfold resolveDirective
  dsimp only
  split
  · exact (quiet_resolveAssignment _ _).bind fun _ => quiet_pure _
  · split
    · exact quiet_pure _
    · exact (quiet_report _).bind fun _ => quiet_pure _
  · exact quiet_pure _
  · exact (switched _).bind fun _ => quiet_pure _
  · exact (switched _).bind fun _ => quiet_pure _
  · exact (quiet_resolvePlain _ _).bind fun _ => quiet_pure _

end

/-! ### Steps and sequences -/

namespace Congruence

variable {R : (α : Type) → Resolution α → Resolution α → Prop} {settings settings' : Settings}
  {expand expand' : Expander}

theorem repeatFrom (h : Congruence R)
    (below : ∀ address body, R _ (expand address body) (expand' address body))
    (body : List Statement) (count : Nat) (address : Int64) (copies : List (List Line)) :
    R _ (repeatFrom expand body count address copies)
      (repeatFrom expand' body count address copies) := by
  induction count generalizing address copies with
  | zero => exact h.quiet (quiet_pure copies)
  | succ count ih => exact h.bind (below address body) fun lines => ih _ _

theorem resolveRepeat (h : Congruence R)
    (below : ∀ address body, R _ (expand address body) (expand' address body)) (address : Int64)
    (start : Statement) (body : List Statement) (text : Bytes) :
    R _ (resolveRepeat expand address start body text)
      (resolveRepeat expand' address start body text) := by
  refine h.bind (h.quiet quiet_get) fun s => h.bind (h.quiet (quiet_report _)) fun _ => ?_
  refine h.bind (h.repeatFrom below _ _ _ _) fun copies => h.quiet ?_
  exact quiet_get.bind fun _ => quiet_pure _

theorem resolveInvocation (h : Congruence R) (last : settings.isLastPass = settings'.isLastPass)
    (below : ∀ address body, R _ (expand address body) (expand' address body)) (address : Int64)
    (name : Bytes) (statement : Statement) :
    R _ (resolveInvocation settings expand address name statement)
      (resolveInvocation settings' expand' address name statement) := by
  refine h.bind (h.quiet quiet_get) fun s => ?_
  split
  · rw [last]
    refine h.quiet ?_
    split
    · exact (quiet_report _).bind fun _ => quiet_pure _
    · exact quiet_pure _
  · refine h.bind (below _ _) fun lines => h.quiet ?_
    exact quiet_get.bind fun _ => quiet_pure _

theorem resolveStatement (h : Congruence R) (last : settings.isLastPass = settings'.isLastPass)
    (below : ∀ address body, R _ (expand address body) (expand' address body)) (address : Int64)
    (statement : Statement) :
    R _ (resolveStatement settings expand address statement)
      (resolveStatement settings' expand' address statement) := by
  have plain : Quiet (do
      return (← resolvePlain address statement, .nothing) : Resolution Step) :=
    (quiet_resolvePlain address statement).bind fun _ => quiet_pure _
  unfold Resolver.resolveStatement
  split
  · split
    · exact h.quiet plain
    · exact h.quiet (quiet_pure _)
  · split
    · exact h.quiet plain
    · exact h.quiet (quiet_resolveDirective _ _ _)
    · refine h.bind (h.quiet (quiet_defineLabel _ _)) fun _ => ?_
      exact h.bind (h.resolveInvocation last below _ _ _) fun _ => h.quiet (quiet_pure _)

theorem step (h : Congruence R) (last : settings.isLastPass = settings'.isLastPass)
    (below : ∀ address body, R _ (expand address body) (expand' address body)) (frame : Frame)
    (statement : Statement) :
    R _ (step settings expand frame statement) (step settings' expand' frame statement) := by
  unfold Resolver.step
  dsimp only
  split
  · exact h.resolveStatement last below _ _
  · refine h.quiet ?_
    split
    · exact (quiet_defineMacro _ _).bind fun _ => quiet_pure _
    · exact quiet_pure _
  · split
    · exact h.bind (h.resolveRepeat below _ _ _ _) fun _ => h.quiet (quiet_pure _)
    · exact h.quiet (quiet_pure _)
    · exact h.quiet (quiet_pure _)
    · exact h.quiet (quiet_pure _)

theorem resolveFrom (h : Congruence R) (last : settings.isLastPass = settings'.isLastPass)
    (below : ∀ address body, R _ (expand address body) (expand' address body)) (frame : Frame)
    (done : List Line) (statements : List Statement) :
    R _ (resolveFrom settings expand frame done statements)
      (resolveFrom settings' expand' frame done statements) := by
  induction statements generalizing frame done with
  | nil => exact h.quiet ((quiet_finish _).bind fun _ => quiet_pure _)
  | cons statement statements ih =>
    refine h.bind (h.step last below frame statement) fun (line, pending) => ?_
    exact ih _ _

end Congruence

end Asm68k.Resolver
