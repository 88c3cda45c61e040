import Asm68k.Proofs.Bytes
import Asm68k.Proofs.Resolver.Congruence
import Asm68k.Proofs.Resolver.Transfer

/-!
The limits are exact thresholds. A source that is resolved under some limits demands a depth and a
number of lines, and other limits admit it exactly when they are at least as large; its lines and
symbols are then the same.
-/

namespace Asm68k.Resolver

open Resolution

/-! ### Failures -/

/-- The computation fails in no other way. -/
def Raises {α : Type} (P : Failure → Prop) (x : Resolution α) : Prop :=
  ∀ ⦃s failure s'⦄, x s = .error failure s' → P failure

section

variable {α β : Type} {P : Failure → Prop} {settings : Settings} {expand : Expander}

theorem Raises.bind {x : Resolution α} {f : α → Resolution β} (first : Raises P x)
    (rest : ∀ a, Raises P (f a)) : Raises P (x >>= f) := by
  intro s failure s' h
  rcases bind_error h with failed | ⟨a, t, -, failed⟩
  · exact first failed
  · exact rest a failed

theorem raises_of_ok {x : Resolution α} (total : ∀ s, ∃ a t, x s = .ok a t) : Raises P x := by
  intro s failure s' h
  obtain ⟨a, t, done⟩ := total s
  rw [done] at h
  cases h

theorem raises_congruence (P : Failure → Prop) : Congruence fun _ x _ => Raises P x where
  quiet quiet := raises_of_ok fun s => by
    obtain ⟨a, s', ok, -⟩ := quiet s
    exact ⟨a, s', ok⟩
  bind first rest := first.bind rest

theorem raises_resolveFrom (below : ∀ address body, Raises P (expand address body))
    (frame : Frame) (done : List Line) (statements : List Statement) :
    Raises P (resolveFrom settings expand frame done statements) :=
  @Congruence.resolveFrom _ settings settings expand expand (raises_congruence P) rfl below _ _ _

end

/-- The failure says that a limit is exceeded. -/
def Failure.Exceeds (limits : Limits) (failure : Failure) : Prop :=
  failure = .nestingTooDeep limits.depth ∨ failure = .tooManyLines limits.lines

theorem charge_raises (settings : Settings) (depth count : Nat) :
    Raises (Failure.Exceeds settings.limits) (charge settings depth count) := by
  intro s failure s' h
  exact .inr (charge_error h).1

theorem expandAt_raises {settings : Settings} (patient : settings.patience = none) (levels : Nat)
    (address : Int64) (statements : List Statement) :
    Raises (Failure.Exceeds settings.limits) (expandAt settings levels address statements) := by
  have polled : Raises (Failure.Exceeds settings.limits) (poll settings) :=
    raises_of_ok fun s => ⟨_, _, poll_patient patient s⟩
  induction levels generalizing address statements with
  | zero =>
    refine polled.bind fun _ s failure s' h => ?_
    cases h
    exact .inl rfl
  | succ levels ih =>
    exact polled.bind fun _ => (charge_raises settings _ _).bind fun _ =>
      raises_resolveFrom ih _ _ _

theorem pass_error {limits : Limits} {number : Nat} {isLastPass : Bool}
    {statements : List Statement} {s s' : State} {error : Error}
    (h : pass limits none number isLastPass statements s = .error error s') :
    ∃ failure, failure.Exceeds limits ∧ error = .duringPass number failure := by
  rcases bind_error h with failed | ⟨_, _, -, failed⟩
  · cases failed
  · unfold EStateM.adaptExcept at failed
    split at failed
    · rename_i failure _ raised
      cases failed
      refine ⟨failure, ?_, rfl⟩
      rcases bind_error raised with failed | ⟨_, _, -, failed⟩
      · cases failed
      · exact raises_resolveFrom (expandAt_raises rfl _) _ _ _ failed
    · cases failed

theorem resolve_error {limits : Limits} {source : Bytes}
    (h : (resolve limits none source).result.isOk = false) :
    ∃ number failure, failure.Exceeds limits ∧
      (resolve limits none source).result = .error (.duringPass number failure) := by
  unfold resolve at h ⊢
  cases run : (passes limits none (statements source)).run .initial with
  | ok lines s =>
    rw [run] at h
    cases h
  | error error s =>
    rcases bind_error run with failed | ⟨_, _, -, failed⟩
    all_goals
      obtain ⟨failure, exceeds, rfl⟩ := pass_error failed
      exact ⟨_, failure, exceeds, rfl⟩

/-! ### Demands -/

theorem Likeness.equal_covers (happening : Happening) : Likeness.equal.Covers happening := by
  cases happening with
  | lookup name known =>
    rintro s t rfl -
    rfl
  | invocation name known =>
    rintro s t rfl -
    rfl
  | expansion depth statements => trivial

section

variable {limits limits' : Limits} {number : Nat} {isLastPass : Bool}
  {statements : List Statement} {lines lines' : List Line} {s t s' t' : State}

theorem pass_admitted (h : pass limits none number isLastPass statements s = .ok lines s')
    (symbols : s.symbols = t.symbols) (macros : s.macros = t.macros)
    (fits : s'.usage.Fits limits') :
    ∃ t', pass limits' none number isLastPass statements t = .ok lines t' ∧
      Likeness.equal.Holds s' t' := by
  obtain ⟨t', again, holds⟩ := (pass_passes h).carried .equal ⟨limits', none, isLastPass⟩ rfl
    (t := t.announced number statements.length) symbols macros
    (fun happening _ => Likeness.equal_covers happening) fits
  exact ⟨t', again.pass_ok, holds⟩

theorem Usage.Fits.mono {usage : Usage} (h : usage.Fits limits)
    (depth : limits.depth ≤ limits'.depth) (lines : limits.lines ≤ limits'.lines) :
    usage.Fits limits' :=
  ⟨Nat.le_trans h.depth depth, Nat.le_trans h.lines lines⟩

/-- Passes under different limits use the same. Both can be made under limits that admit both. -/
theorem pass_unique (h : pass limits none number isLastPass statements s = .ok lines s')
    (h' : pass limits' none number isLastPass statements t = .ok lines' t')
    (symbols : s.symbols = t.symbols) (macros : s.macros = t.macros) :
    lines = lines' ∧ s'.symbols = t'.symbols ∧ s'.macros = t'.macros ∧ s'.usage = t'.usage := by
  let both : Limits := ⟨max limits.depth limits'.depth, max limits.lines limits'.lines⟩
  have fits : s'.usage.Fits both :=
    (pass_passes h).spent.2.mono (Nat.le_max_left _ _) (Nat.le_max_left _ _)
  have fits' : t'.usage.Fits both :=
    (pass_passes h').spent.2.mono (Nat.le_max_right _ _) (Nat.le_max_right _ _)
  obtain ⟨u, one, left⟩ := pass_admitted h symbols macros fits
  obtain ⟨u', two, right⟩ := pass_admitted (t := t) h' rfl rfl fits'
  rw [one] at two
  cases two
  exact ⟨rfl, left.symbols.trans right.symbols.symm, left.macros.trans right.macros.symm,
    left.usage.trans right.usage.symm⟩

end

/-- What happens in the two passes over a source, as far as they are made. -/
def logs (limits : Limits) (source : Bytes) : List Log :=
  passLog limits none 1 false (statements source) .initial ::
    match pass limits none 1 false (statements source) .initial with
    | .ok _ t => [passLog limits none 2 true (statements source) t]
    | .error _ _ => []

/-- The deepest expansion in either pass, and the larger cost of the two. -/
def demand (limits : Limits) (source : Bytes) : Usage :=
  ⟨((logs limits source).map Log.depth).foldr max 0,
    ((logs limits source).map Log.cost).foldr max 0⟩

theorem demand_fits_iff {limits : Limits} (limits' : Limits) {source : Bytes}
    {first lines : List Line} {t s' : State}
    (one : pass limits none 1 false (statements source) .initial = .ok first t)
    (two : pass limits none 2 true (statements source) t = .ok lines s') :
    (demand limits source).Fits limits' ↔ t.usage.Fits limits' ∧ s'.usage.Fits limits' := by
  rw [(pass_passes one).spent.1, (pass_passes two).spent.1]
  have both : logs limits source =
      [passLog limits none 1 false (statements source) .initial,
        passLog limits none 2 true (statements source) t] := by
    rw [logs, one]
  constructor
  · rintro ⟨depth, cost⟩
    simp only [demand, both, passLog, List.map_cons, List.map_nil, List.foldr_cons,
      List.foldr_nil] at depth cost
    refine ⟨⟨?_, ?_⟩, ?_, ?_⟩
    all_goals
      simp only [Usage.after, Usage.zero]
      omega
  · rintro ⟨⟨depth, cost⟩, depth', cost'⟩
    simp only [Usage.after, Usage.zero] at depth cost depth' cost'
    refine ⟨?_, ?_⟩
    all_goals
      simp only [demand, both, passLog, List.map_cons, List.map_nil, List.foldr_cons,
        List.foldr_nil]
      omega

/-- Limits admit a source exactly when they are not below its demand. Its lines and symbols are the
same under all of them, and under the others a limit is exceeded. -/
theorem resolve_threshold {limits : Limits} {source : Bytes} {lines : List Line}
    (h : (resolve limits none source).result = .ok lines) (limits' : Limits) :
    ((resolve limits' none source).result.isOk = true ↔
      (demand limits source).depth ≤ limits'.depth ∧
        (demand limits source).lines ≤ limits'.lines) ∧
    ((resolve limits' none source).result.isOk = true →
      (resolve limits' none source).result = .ok lines ∧
        (resolve limits' none source).symbols = (resolve limits none source).symbols) ∧
    ((resolve limits' none source).result.isOk = false → ∃ number failure,
      (failure = .nestingTooDeep limits'.depth ∨ failure = .tooManyLines limits'.lines) ∧
        (resolve limits' none source).result = .error (.duringPass number failure)) := by
  obtain ⟨first, t, s', one, two, outcome⟩ := resolve_ok h
  have fits := demand_fits_iff limits' one two
  refine ⟨⟨fun ok => ?_, fun ⟨depth, cost⟩ => ?_⟩, fun ok => ?_, resolve_error⟩
  · obtain ⟨lines', h'⟩ := exists_ok ok
    obtain ⟨first', t', u', one', two', -⟩ := resolve_ok h'
    obtain ⟨-, symbols, macros, usage⟩ := pass_unique one one' rfl rfl
    obtain ⟨-, -, -, usage'⟩ := pass_unique two two' symbols macros
    have within : (demand limits source).Fits limits' := by
      rw [fits, usage, usage']
      exact ⟨(pass_passes one').spent.2, (pass_passes two').spent.2⟩
    exact ⟨within.depth, within.lines⟩
  · obtain ⟨fitsOne, fitsTwo⟩ := fits.mp ⟨depth, cost⟩
    obtain ⟨t', one', holds⟩ := pass_admitted one rfl rfl fitsOne
    obtain ⟨u', two', -⟩ := pass_admitted two holds.symbols holds.macros fitsTwo
    rw [resolve_of_passes one' two']
    rfl
  · obtain ⟨lines', h'⟩ := exists_ok ok
    obtain ⟨first', t', u', one', two', outcome'⟩ := resolve_ok h'
    obtain ⟨-, symbols, macros, -⟩ := pass_unique one one' rfl rfl
    obtain ⟨rfl, symbols', -⟩ := pass_unique two two' symbols macros
    rw [outcome, outcome']
    exact ⟨rfl, symbols'.symm⟩

/-- A block in a macro in a block, beside a macro with an empty body. -/
def nestedBlocks : Bytes :=
  Bytes.ofLines (["m macro", " rept 2", " dc.b 1", " endr", " endm", "empty macro", " endm",
    " rept 3", " m", " empty", " endr"].map Bytes.ofString)

theorem resolve_threshold_nestedBlocks :
    ∃ lines, (resolve .standard none nestedBlocks).result = .ok lines ∧
      (∀ limits, (resolve limits none nestedBlocks).result.isOk = true ↔
        3 ≤ limits.depth ∧ 24 ≤ limits.lines) ∧
      (resolve ⟨3, 24⟩ none nestedBlocks).result = .ok lines ∧
      (resolve ⟨3, 23⟩ none nestedBlocks).result.isOk = false := by
  obtain ⟨resolved, used⟩ : (resolve .standard none nestedBlocks).result.isOk = true ∧
      demand .standard nestedBlocks = ⟨3, 24⟩ := by
    decide +kernel
  obtain ⟨lines, h⟩ := exists_ok resolved
  have threshold := resolve_threshold h
  simp only [used] at threshold
  refine ⟨lines, h, fun limits => (threshold limits).1, ?_, ?_⟩
  · exact ((threshold ⟨3, 24⟩).2.1 ((threshold ⟨3, 24⟩).1.mpr (by decide))).1
  · rw [Bool.eq_false_iff, ne_eq, (threshold ⟨3, 23⟩).1]
    decide

end Asm68k.Resolver
