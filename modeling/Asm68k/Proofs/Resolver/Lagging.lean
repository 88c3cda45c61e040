import Asm68k.Proofs.Resolver.Constants

/-!
A pass that does not know all constants yet. It may get addresses, sizes and repetitions wrong, but
a block is repeated as often as it should be or not at all, so the pass expands no more and defines
no more than one that knows them: `Runs.lags`.
-/

namespace Asm68k.Resolver

open Resolution

/-- The second state is behind the first, which knows all constants. -/
structure Lag (constants : Symbols) (s t : State) : Prop where
  noMacros : s.macros = ∅
  noMacros' : t.macros = ∅
  known : Knows constants s.symbols
  part : Part constants t.symbols
  domain : ∀ name ∈ t.symbols, name ∈ s.symbols
  depth : t.usage.depth ≤ s.usage.depth
  lines : t.usage.lines ≤ s.usage.lines

section

variable {constants : Symbols} {settings settings' : Settings} {limits : Limits}
  {expand expand' : Expander} {log : Logger} {statement : Statement} {statements : List Statement}
  {last : Frame} {s t s' : State}

namespace Lag

theorem same (lag : Lag constants s t) {s' t' : State} (left : Same s' s) (right : Same t' t) :
    Lag constants s' t' where
  noMacros := left.macros.trans lag.noMacros
  noMacros' := right.macros.trans lag.noMacros'
  known := left.symbols ▸ lag.known
  part := right.symbols ▸ lag.part
  domain := by
    rw [left.symbols, right.symbols]
    exact lag.domain
  depth := by
    rw [left.usage, right.usage]
    exact lag.depth
  lines := by
    rw [left.usage, right.usage]
    exact lag.lines

/-- The first state may go on alone. -/
theorem ahead (lag : Lag constants s t) (steady : Steady constants s s')
    {happened : Log} (spent : Spent limits s happened s') : Lag constants s' t where
  noMacros := steady.macros.trans lag.noMacros
  noMacros' := lag.noMacros'
  known name member := (steady.constants name member).trans (lag.known name member)
  part := lag.part
  domain name member := steady.domain name (lag.domain name member)
  depth := by
    rw [spent.usage]
    exact Nat.le_trans lag.depth (Nat.le_max_left _ _)
  lines := by
    rw [spent.usage]
    exact Nat.le_trans lag.lines (Nat.le_add_right _ _)

-- The addresses may differ. A label is no constant.
theorem labelled (lag : Lag constants s t) (tame : Tame constants statement)
    (address address' : Int64) :
    Lag constants (s.labelled address statement) (t.labelled address' statement) := by
  have steady := tame.labelled s address
  have steady' := tame.labelled t address'
  refine ⟨steady.macros.trans lag.noMacros, steady'.macros.trans lag.noMacros', ?_, ?_, ?_, ?_, ?_⟩
  · intro name member
    rw [steady.constants name member, lag.known name member]
  · intro name member
    rw [steady'.constants name member]
    exact lag.part name member
  · unfold State.labelled
    cases statement.label with
    | none => exact lag.domain
    | some label =>
      intro name member
      rcases Std.ExtTreeMap.mem_insert.mp member with same | before
      · exact Std.ExtTreeMap.mem_insert.mpr (.inl same)
      · exact Std.ExtTreeMap.mem_insert.mpr (.inr (lag.domain name before))
  · rw [s.labelled_usage, t.labelled_usage]
    exact lag.depth
  · rw [s.labelled_usage, t.labelled_usage]
    exact lag.lines

theorem bound (lag : Lag constants s t) {name : Bytes} {value : Int64}
    (binds : Binds constants statement name value) : Lag constants s (t.bound name value) where
  noMacros := lag.noMacros
  noMacros' := lag.noMacros'
  known := lag.known
  part := binds.part lag.part
  domain other member := by
    rcases Std.ExtTreeMap.mem_insert.mp member with same | before
    · obtain rfl : name = other := by simpa using same
      rw [Std.ExtTreeMap.mem_iff_isSome_getElem?, lag.known name binds.mem, binds.constant]
      rfl
    · exact lag.domain other before
  depth := lag.depth
  lines := lag.lines

theorem charged (lag : Lag constants s t) (depth count : Nat) :
    Lag constants (s.charged depth count) (t.charged depth count) where
  noMacros := lag.noMacros
  noMacros' := lag.noMacros'
  known := lag.known
  part := lag.part
  domain := lag.domain
  depth := by
    have := lag.depth
    simp only [State.charged, Usage.add]
    omega
  lines := Nat.add_le_add_right lag.lines _

theorem repeatCount (lag : Lag constants s t) {start : Statement} (tame : Tame constants start)
    (begins : start.directive? = some .beginRepeat) :
    repeatCount t.symbols start = 0 ∨
      repeatCount t.symbols start = repeatCount s.symbols start := by
  have closed := tame.closed
  rw [evaluated_of_directive begins rfl] at closed
  unfold Resolver.repeatCount
  cases operands : start.operands with
  | nil => exact .inl rfl
  | cons operand rest =>
    rw [operands] at closed
    have part : ∀ name ∈ Expression.mentions operand.text,
        t.symbols[name]? = none ∨ t.symbols[name]? = s.symbols[name]? := by
      intro name mentioned
      have member := closed _ List.mem_cons_self name mentioned
      rw [lag.known name member]
      exact lag.part name member
    rcases @Expression.value?_partial (t.symbols[·]?) (s.symbols[·]?) _ part with none | same
    · exact .inl (by simp only [none, Option.getD_none])
    · exact .inr (by simp only [same])

end Lag

/-- What one expander does, the other does behind it, at any address. -/
def Lags (constants : Symbols) (expand expand' : Expander) : Prop :=
  ∀ ⦃address address' body s t lines s'⦄, (∀ statement ∈ body, Tame constants statement) →
    Lag constants s t → expand address body s = .ok lines s' →
    ∃ lines' t', expand' address' body t = .ok lines' t' ∧ Lag constants s' t'

theorem repeatFrom_lags (below : Lags constants expand expand') {body : List Statement}
    (tame : ∀ statement ∈ body, Tame constants statement) {count : Nat} {address : Int64}
    {copies result : List (List Line)} (lag : Lag constants s t)
    (h : repeatFrom expand body count address copies s = .ok result s') (address' : Int64)
    (copies' : List (List Line)) :
    ∃ result' t', repeatFrom expand' body count address' copies' t = .ok result' t' ∧
      Lag constants s' t' := by
  induction count generalizing address address' copies copies' s t with
  | zero =>
    obtain ⟨rfl, rfl⟩ := pure_ok h
    exact ⟨copies', t, rfl, lag⟩
  | succ count ih =>
    obtain ⟨lines, u, expanded, h⟩ := bind_ok h
    obtain ⟨lines', u', expanded', lag⟩ := below tame lag expanded
    obtain ⟨result', t', rest, lag⟩ := ih lag h _ (lines' :: copies')
    exact ⟨result', t', (bind_of_ok expanded').trans rest, lag⟩

theorem Stepped.lags (settings' : Settings) (address' : Int64)
    (below : Lags constants expand expand')
    (steady : HoldsConstants constants expand log) (logged : Logged limits expand log)
    {address : Int64} {pending : Pending} (tame : Tame constants statement)
    (collected : pending.Tame constants) (lag : Lag constants s t) {line : Line}
    (h : Stepped settings expand ⟨address, pending⟩ statement s line s') :
    ∃ line' t', Stepped settings' expand' ⟨address', pending⟩ statement t line' t' ∧
      Lag constants s' t' := by
  cases h with
  | collected collecting unfinished => exact ⟨_, t, .collected collecting unfinished, lag⟩
  | macroEnded here ends =>
    cases here
    exact collected.elim
  | @repeatEnded start body copies _ here ends run =>
    cases here
    obtain ⟨begins, spelled, inside⟩ := collected
    have reported := lag.same
      (same_reported s (.blockRepeated (repeatCount s.symbols start) body.size))
      (same_reported t (.blockRepeated (repeatCount t.symbols start) body.size))
    rcases lag.repeatCount begins spelled with zero | same
    · -- Nothing is repeated here, while the other one goes on.
      have skipped : repeatFrom expand' body.toList (repeatCount t.symbols start).toInt.toNat
          address' [] (t.reported (.blockRepeated (repeatCount t.symbols start) body.size)) =
            .ok [] (t.reported (.blockRepeated (repeatCount t.symbols start) body.size)) := by
        rw [zero]
        rfl
      have kept := (repeatFrom_steady steady inside reported.noMacros run).1
      exact ⟨_, _, .repeatEnded rfl ends skipped,
        reported.ahead kept (copiesLog_spent logged run)⟩
    · obtain ⟨copies', t', run', lag⟩ :=
        repeatFrom_lags below inside reported run address' []
      rw [← same] at run'
      exact ⟨_, t', .repeatEnded rfl ends run', lag⟩
  | blank here inert => exact ⟨_, t, .blank here inert, lag⟩
  | plain here own =>
    cases here
    exact ⟨_, _, .plain rfl own, lag.labelled tame _ _⟩
  | assigned here directive name => exact (tame.not_assigned directive name).elim
  | macroBegun here directive named => exact absurd directive tame.noMacro
  | switched here spelled sectional =>
    exact ⟨_, _, .switched here spelled sectional, lag.noMacros, lag.noMacros', lag.known, lag.part,
      lag.domain, lag.depth, lag.lines⟩
  | @ignored opcode name _ here spelled invokes unknown after =>
    cases here
    have unknown' : t.macros[name]? = none := by
      rw [lag.noMacros', Std.ExtTreeMap.getElem?_empty]
    have labelled := lag.labelled tame address address'
    refine ⟨_, _, .ignored rfl spelled invokes unknown' (.inl rfl), ?_⟩
    rcases after with rfl | rfl
    · exact labelled
    · exact labelled.same (same_reported _ _) (same_refl _)
  | invoked here spelled invokes known run =>
    rw [lag.noMacros, Std.ExtTreeMap.getElem?_empty] at known
    cases known

theorem Runs.lags (settings' : Settings) (address' : Int64) (below : Lags constants expand expand')
    (steady : HoldsConstants constants expand log) (logged : Logged limits expand log)
    {pending : Pending} {xs ys : List Statement} (woven : Woven constants pending xs ys)
    (collected : pending.Tame constants) {address : Int64} {lines : List Line}
    (lag : Lag constants s t)
    (h : Runs settings expand ⟨address, pending⟩ xs s lines last s') :
    ∃ lines' last' t', Runs settings' expand' ⟨address', pending⟩ ys t lines' last' t' ∧
      last.pending.Tame constants ∧ last'.pending = last.pending ∧ Lag constants s' t' := by
  induction woven generalizing address address' lines s t with
  | nil pending =>
    cases h
    exact ⟨[], _, t, .nil _ t, collected, rfl, lag⟩
  | @both pending statement xs ys tame rest ih =>
    cases h with
    | cons stepped run =>
      obtain ⟨rule, rfl⟩ := step_stepped stepped
      obtain ⟨line', u', rule', lag⟩ := rule.lags settings' address' below
        steady logged tame collected lag
      obtain ⟨v, stepped', same⟩ := rule'.carriedOut
      obtain ⟨lines', last', t', run', rest⟩ :=
        ih _ (collected.after tame) (lag.same (same_refl _) same) run
      exact ⟨_, last', t', .cons stepped' run', rest⟩
  | left binds rest ih =>
    obtain ⟨lines, rfl, run⟩ := binds.runs_iff.mp h
    exact ih address' collected (lag.same (binds.same lag.known) (same_refl t)) run
  | right binds rest ih =>
    obtain ⟨lines', last', t', run', rest⟩ :=
      ih address' collected (lag.bound binds) h
    exact ⟨_, last', t', binds.runs_iff.mpr ⟨lines', rfl, run'⟩, rest⟩

-- Both passes have reached the same depth, so the same levels are left.
theorem expandAt_lags (patient : settings'.patience = none)
    (same : settings'.limits = settings.limits) {depth levels : Nat}
    (sum : depth + levels = settings.limits.depth) :
    Lags constants (expandAt settings levels) (expandAt settings' levels) := by
  induction levels generalizing depth with
  | zero =>
    intro address address' body s t lines s' tame lag h
    obtain ⟨inner, _, _, levels, _⟩ := expandAt_runs h
    cases levels
  | succ levels ih =>
    intro address address' body s t lines s' tame lag h
    have within := expandAt_within h
    obtain ⟨_, last, u, ⟨rfl⟩, run, rfl⟩ := expandAt_runs h
    have deeper : depth + 1 + levels = settings.limits.depth := by omega
    obtain ⟨lines', last', u', run', collected, ends, after⟩ := run.lags settings' address'
      (ih deeper) (expandAt_holdsConstants constants settings (depth + 1 + 1) levels)
      (expandAt_logged settings deeper) (woven_refl tame .nothing) trivial
      (lag.charged (settings.limits.depth - levels) body.length)
    rw [← same] at run' within
    have within' : (t.usage.add (settings'.limits.depth - levels) body.length).lines ≤
        settings'.limits.lines := Nat.le_trans (Nat.add_le_add_right lag.lines _) within
    refine ⟨lines', _, run'.expandAt_ok patient within', ?_⟩
    exact after.same (collected.finished u) ((ends ▸ collected).finished u')

theorem Passes.lags {xs ys : List Statement} {lines : List Line}
    (h : Passes settings xs s lines s') (woven : Woven constants .nothing xs ys)
    (lag : Lag constants s.fresh t.fresh) (settings' : Settings)
    (patient : settings'.patience = none) (same : settings'.limits = settings.limits) :
    ∃ lines' t', Passes settings' ys t lines' t' ∧ Lag constants s' t' := by
  obtain ⟨last, u, run, rfl⟩ := h
  obtain ⟨lines', last', u', run', collected, ends, after⟩ := run.lags settings' 0
    (expandAt_lags patient same (Nat.zero_add _))
    (expandAt_holdsConstants constants settings 1 settings.limits.depth)
    (expandAt_logged settings (Nat.zero_add _)) woven trivial lag
  rw [← same] at run'
  exact ⟨lines', _, ⟨last', u', run', rfl⟩,
    after.same (collected.finished u) ((ends ▸ collected).finished u')⟩

end

end Asm68k.Resolver
