import Asm68k.Proofs.Resolver.Run

/-!
Limits and reports do not influence a result: two runs over the same statements from alike
states give the same lines whenever both succeed (`Runs.agree`), at whatever depth they are made.
-/

namespace Asm68k.Resolver

open Resolution Line

/-- States that no statement can tell apart. -/
structure Alike (s t : State) : Prop where
  symbols : s.symbols = t.symbols
  macros : s.macros = t.macros
  bss : s.bss = t.bss

/-- Two computations with the same result and alike states whenever both succeed. -/
def Agree {α : Type} (x y : Resolution α) : Prop :=
  ∀ ⦃s t s' t' : State⦄ ⦃a b : α⦄, Alike s t → x s = .ok a s' → y t = .ok b t' →
    a = b ∧ Alike s' t'

def ExpandersAgree (expand expand' : Expander) : Prop :=
  ∀ address statements, Agree (expand address statements) (expand' address statements)

theorem alike_refl (s : State) : Alike s s := ⟨rfl, rfl, rfl⟩

theorem Alike.symm {s t : State} (h : Alike s t) : Alike t s :=
  ⟨h.symbols.symm, h.macros.symm, h.bss.symm⟩

theorem Alike.trans {s t u : State} (h : Alike s t) (h' : Alike t u) : Alike s u :=
  ⟨h.symbols.trans h'.symbols, h.macros.trans h'.macros, h.bss.trans h'.bss⟩

/-! ### Combining computations -/

section

variable {α β : Type}

theorem agree_pure (a : α) : Agree (pure a) (pure a) := by
  intro s t s' t' b b' alike h h'
  obtain ⟨rfl, rfl⟩ := pure_ok h
  obtain ⟨rfl, rfl⟩ := pure_ok h'
  exact ⟨rfl, alike⟩

theorem Agree.bind {x y : Resolution α} {f g : α → Resolution β} (first : Agree x y)
    (rest : ∀ a, Agree (f a) (g a)) : Agree (x >>= f) (y >>= g) := by
  intro s t s' t' b b' alike h h'
  obtain ⟨a, u, hx, h⟩ := bind_ok h
  obtain ⟨a', u', hy, h'⟩ := bind_ok h'
  obtain ⟨rfl, between⟩ := first alike hx hy
  exact rest a between h h'

theorem agree_get_bind {f g : State → Resolution α}
    (rest : ∀ s t, Alike s t → Agree (f s) (g t)) : Agree (get >>= f) (get >>= g) := by
  intro s t s' t' b b' alike h h'
  obtain ⟨_, _, read, h⟩ := bind_ok h
  obtain ⟨_, _, read', h'⟩ := bind_ok h'
  cases read
  cases read'
  exact rest s t alike alike h h'

theorem agree_modify {f g : State → State} (keeps : ∀ s t, Alike s t → Alike (f s) (g t)) :
    Agree (modify f) (modify g) := by
  intro s t s' t' b b' alike h h'
  cases h
  cases h'
  exact ⟨rfl, keeps s t alike⟩

end

theorem agree_report (event event' : Event) : Agree (report event) (report event') :=
  agree_modify fun _ _ alike => ⟨alike.symbols, alike.macros, alike.bss⟩

theorem agree_define (name : Bytes) (value : Int64) :
    Agree (define name value) (define name value) :=
  agree_modify fun s t alike => ⟨by rw [alike.symbols], alike.macros, alike.bss⟩

theorem agree_defineMacro (name : Bytes) (body : List Statement) :
    Agree (defineMacro name body) (defineMacro name body) :=
  agree_modify fun s t alike => ⟨alike.symbols, by rw [alike.macros], alike.bss⟩

theorem agree_select (bss : Bool) :
    Agree (modify fun s => { s with bss }) (modify fun s => { s with bss }) := by
  apply agree_modify
  intro s t alike
  exact ⟨alike.symbols, alike.macros, rfl⟩

-- Only the last pass reports a macro that is not known.
theorem agree_ignored (isLastPass isLastPass' : Bool) (event : Event) (line : Line) :
    Agree
      (do if isLastPass then report event
          return line)
      (do if isLastPass' then report event
          return line) := by
  intro s t s' t' a b alike h h'
  cases isLastPass <;> cases isLastPass' <;>
    · cases h
      cases h'
      exact ⟨rfl, alike.symbols, alike.macros, alike.bss⟩

/-! ### Statements -/

theorem agree_defineLabel (address : Int64) (statement : Statement) :
    Agree (defineLabel address statement) (defineLabel address statement) := by
  unfold defineLabel
  split
  · exact agree_define _ _
  · exact agree_pure ()

theorem agree_resolvePlain (address : Int64) (statement : Statement) :
    Agree (resolvePlain address statement) (resolvePlain address statement) := by
  refine (agree_defineLabel address statement).bind fun _ => agree_get_bind fun s t alike => ?_
  rw [alike.symbols, alike.bss]
  exact agree_pure _

theorem agree_resolveAssignment (label : Label) (statement : Statement) :
    Agree (resolveAssignment label statement) (resolveAssignment label statement) := by
  unfold resolveAssignment
  split
  · exact agree_pure ()
  · refine agree_get_bind fun s t alike => ?_
    rw [alike.symbols]
    split
    · exact agree_define _ _
    · exact agree_pure ()

theorem agree_resolveDirective (address : Int64) (directive : Directive) (statement : Statement) :
    Agree (resolveDirective address directive statement)
      (resolveDirective address directive statement) := by
  unfold resolveDirective
  dsimp only
  split
  · exact (agree_resolveAssignment _ _).bind fun _ => agree_pure _
  · split
    · exact agree_pure _
    · exact (agree_report _ _).bind fun _ => agree_pure _
  · exact agree_pure _
  · exact (agree_select _).bind fun _ => agree_pure _
  · exact (agree_select _).bind fun _ => agree_pure _
  · exact (agree_resolvePlain _ _).bind fun _ => agree_pure _

section

variable {settings settings' : Settings} {expand expand' : Expander}

theorem agree_repeatFrom (same : ExpandersAgree expand expand') (body : List Statement)
    (count : Nat) (address : Int64) (copies : List (List Line)) :
    Agree (repeatFrom expand body count address copies)
      (repeatFrom expand' body count address copies) := by
  induction count generalizing address copies with
  | zero => exact agree_pure copies
  | succ count ih => exact (same address body).bind fun lines => ih _ _

theorem agree_resolveRepeat (same : ExpandersAgree expand expand') (address : Int64)
    (start : Statement) (body : List Statement) (text : Bytes) :
    Agree (resolveRepeat expand address start body text)
      (resolveRepeat expand' address start body text) := by
  refine agree_get_bind fun s t alike => ?_
  rw [alike.symbols]
  refine (agree_report _ _).bind fun _ => (agree_repeatFrom same _ _ _ _).bind fun copies => ?_
  refine agree_get_bind fun s t alike => ?_
  rw [alike.bss]
  exact agree_pure _

theorem agree_resolveInvocation (same : ExpandersAgree expand expand') (address : Int64)
    (name : Bytes) (statement : Statement) :
    Agree (resolveInvocation settings expand address name statement)
      (resolveInvocation settings' expand' address name statement) := by
  refine agree_get_bind fun s t alike => ?_
  rw [alike.macros]
  split
  · exact agree_ignored _ _ _ _
  · refine (same _ _).bind fun lines => agree_get_bind fun s t alike => ?_
    rw [alike.bss]
    exact agree_pure _

theorem agree_resolveStatement (same : ExpandersAgree expand expand') (address : Int64)
    (statement : Statement) :
    Agree (resolveStatement settings expand address statement)
      (resolveStatement settings' expand' address statement) := by
  unfold resolveStatement
  split
  · split
    · exact (agree_resolvePlain _ _).bind fun _ => agree_pure _
    · exact agree_pure _
  · split
    · exact (agree_resolvePlain _ _).bind fun _ => agree_pure _
    · exact agree_resolveDirective _ _ _
    · exact (agree_defineLabel _ _).bind fun _ =>
        (agree_resolveInvocation same _ _ _).bind fun _ => agree_pure _

theorem agree_step (same : ExpandersAgree expand expand') (frame : Frame) (statement : Statement) :
    Agree (step settings expand frame statement) (step settings' expand' frame statement) := by
  unfold step
  dsimp only
  split
  · exact agree_resolveStatement same _ _
  · split
    · exact (agree_defineMacro _ _).bind fun _ => agree_pure _
    · exact agree_pure _
  · split
    · exact (agree_resolveRepeat same _ _ _ _).bind fun _ => agree_pure _
    · exact agree_pure _
    · exact agree_pure _
    · exact agree_pure _

end

/-! ### Runs -/

theorem alike_finished {s t : State} (alike : Alike s t) (pending : Pending) :
    Alike (s.finished pending) (t.finished pending) := by
  cases pending with
  | nothing => exact alike
  | macroBody name body =>
    refine ⟨alike.symbols, ?_, alike.bss⟩
    simp only [State.finished, State.reported, State.withMacro, alike.macros]
  | repeatBody start body nested => exact ⟨alike.symbols, alike.macros, alike.bss⟩

section

variable {settings settings' : Settings} {expand expand' : Expander} {frame last last' : Frame}
  {statements : List Statement} {s t s' t' : State} {lines lines' : List Line}

theorem Runs.agree (same : ExpandersAgree expand expand') (alike : Alike s t)
    (h : Runs settings expand frame statements s lines last s')
    (h' : Runs settings' expand' frame statements t lines' last' t') :
    lines = lines' ∧ last = last' ∧ Alike s' t' := by
  induction h generalizing t lines' with
  | nil =>
    cases h'
    exact ⟨rfl, rfl, alike⟩
  | cons stepped rest ih =>
    cases h' with
    | cons stepped' rest' =>
      obtain ⟨result, between⟩ := agree_step same _ _ alike stepped stepped'
      cases result
      obtain ⟨rfl, rfl, after⟩ := ih between rest'
      exact ⟨rfl, rfl, after⟩

theorem agree_expandAt (settings settings' : Settings) (levels levels' : Nat) :
    ExpandersAgree (expandAt settings levels) (expandAt settings' levels') := by
  induction levels generalizing levels' with
  | zero =>
    intro address statements s t s' t' a b alike h
    obtain ⟨inner, _, _, levels, _⟩ := expandAt_runs h
    cases levels
  | succ levels ih =>
    intro address statements s t s' t' a b alike h h'
    obtain ⟨inner, last, u, levels, run, rfl⟩ := expandAt_runs h
    obtain ⟨inner', last', u', rfl, run', rfl⟩ := expandAt_runs h'
    cases levels
    have charged : Alike (s.charged (settings.limits.depth - levels) statements.length)
        (t.charged (settings'.limits.depth - inner') statements.length) :=
      ⟨alike.symbols, alike.macros, alike.bss⟩
    obtain ⟨rfl, rfl, after⟩ := run.agree (ih inner') charged run'
    exact ⟨rfl, alike_finished after _⟩

end

end Asm68k.Resolver
