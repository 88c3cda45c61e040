import Asm68k.Proofs.Bytes
import Asm68k.Proofs.Resolver.Agreement

/-!
Statements of a source that can be replaced by others. A body that closes all it opens is resolved
alike in an expansion and in place (`expandAt_inline`). When two parts do the same wherever the
statements before them lead, the sources around them come to the same (`resolve_replaced`).
-/

namespace Asm68k.Resolver

open Line

/-! ### Closed bodies -/

/-- The number of blocks that are open after some statements, if every end closes one. -/
def openBlocks : Nat → List Statement → Option Nat
  | depth, [] => some depth
  | depth, statement :: statements =>
    if statement.directive? = some .beginRepeat then openBlocks (depth + 1) statements
    else if statement.directive? = some .endRepeat then
      if depth = 0 then none else openBlocks (depth - 1) statements
    else openBlocks depth statements

/-- No macro begins or ends, and blocks are opened and closed in pairs. -/
structure Closed (body : List Statement) : Prop where
  noMacros : ∀ statement ∈ body,
    statement.directive? ≠ some .beginMacro ∧ statement.directive? ≠ some .endMacro
  balanced : openBlocks 0 body = some 0

theorem openBlocks_cons {statement : Statement} {body : List Statement} {depth last : Nat}
    (h : openBlocks depth (statement :: body) = some last) :
    (statement.directive? = some .beginRepeat ∧ openBlocks (depth + 1) body = some last) ∨
    (statement.directive? = some .endRepeat ∧
      ∃ outer, depth = outer + 1 ∧ openBlocks outer body = some last) ∨
    (statement.directive? ≠ some .beginRepeat ∧ statement.directive? ≠ some .endRepeat ∧
      openBlocks depth body = some last) := by
  rw [openBlocks] at h
  by_cases begins : statement.directive? = some .beginRepeat
  · rw [if_pos begins] at h
    exact .inl ⟨begins, h⟩
  rw [if_neg begins] at h
  by_cases ends : statement.directive? = some .endRepeat
  · rw [if_pos ends] at h
    cases depth with
    | zero => cases h
    | succ outer => exact .inr (.inl ⟨ends, outer, rfl, h⟩)
  · rw [if_neg ends] at h
    exact .inr (.inr ⟨begins, ends, h⟩)

/-- Blocks that are open correspond to what is collected: one block, and the blocks inside it. -/
def Opened : Nat → Pending → Prop
  | 0, pending => pending = .nothing
  | depth + 1, pending => ∃ start body, pending = .repeatBody start body depth

theorem afterAll_opened {body : List Statement} {depth last : Nat} {pending : Pending}
    (noMacros : ∀ statement ∈ body, statement.directive? ≠ some .beginMacro)
    (balanced : openBlocks depth body = some last) (opened : Opened depth pending) :
    Opened last (pending.afterAll body) := by
  induction body generalizing depth pending with
  | nil =>
    cases balanced
    exact opened
  | cons statement body ih =>
    have rest := fun s member => noMacros s (List.mem_cons_of_mem statement member)
    have here := noMacros statement List.mem_cons_self
    change Opened last ((pending.after statement).afterAll body)
    rcases openBlocks_cons balanced with ⟨begins, remaining⟩ | ⟨ends, outer, rfl, remaining⟩ |
      ⟨begins, ends, remaining⟩
    · refine ih rest remaining ?_
      cases depth with
      | zero =>
        cases opened
        exact ⟨statement, #[], by simp [Pending.after, begun, begins]⟩
      | succ depth =>
        obtain ⟨start, lines, rfl⟩ := opened
        exact ⟨start, lines.push statement, by simp [Pending.after, begins]⟩
    · refine ih rest remaining ?_
      obtain ⟨start, lines, rfl⟩ := opened
      cases outer with
      | zero => simp [Opened, Pending.after, ends]
      | succ depth => exact ⟨start, lines.push statement, by simp [Pending.after, ends]⟩
    · refine ih rest remaining ?_
      cases depth with
      | zero =>
        cases opened
        exact begun_eq_nothing here begins
      | succ depth =>
        obtain ⟨start, lines, rfl⟩ := opened
        exact ⟨start, _, Pending.after_repeatBody start lines depth begins ends⟩

theorem Closed.afterAll_nothing {body : List Statement} (closed : Closed body) :
    Pending.nothing.afterAll body = .nothing :=
  afterAll_opened (fun s member => (closed.noMacros s member).1) closed.balanced rfl

/-! ### Expansions in place -/

section

variable {settings settings' : Settings} {levels levels' : Nat} {address : Int64}
  {body : List Statement} {s t s' t' : State} {lines lines' : List Line} {last : Frame}

/-- A closed body gives the same lines in an expansion and in place. -/
theorem expandAt_inline (closed : Closed body) (alike : Alike s t)
    (h : expandAt settings levels address body s = .ok lines s')
    (h' : Runs settings' (expandAt settings' levels') ⟨address, .nothing⟩ body t lines' last t') :
    lines = lines' ∧ last = ⟨address + extent (leaves lines), .nothing⟩ ∧ Alike s' t' := by
  obtain ⟨inner, end_, u, rfl, run, rfl⟩ := expandAt_runs h
  have charged : Alike (s.charged (settings.limits.depth - inner) body.length) t :=
    ⟨alike.symbols, alike.macros, alike.bss⟩
  obtain ⟨rfl, rfl, after⟩ := run.agree (agree_expandAt settings settings' inner levels') charged h'
  have nothing : end_.pending = .nothing := run.pending.trans closed.afterAll_nothing
  have moved : end_.address = address + extent (leaves lines) := run.address
  rw [nothing]
  refine ⟨rfl, ?_, after⟩
  cases end_
  cases nothing
  cases moved
  rfl

end

/-! ### Replacing a part of the source -/

theorem statements_ofLines {parts : List Bytes}
    (inner : ∀ part ∈ parts, ∀ b ∈ part, Bytes.IsInner b) (nonempty : parts ≠ []) :
    statements (.ofLines parts) = parts.map .ofLine := by
  rw [statements, Bytes.lines_ofLines inner nonempty]

/-- Wherever the statements before them lead, two parts give the same leaves that count and leave
alike states behind. -/
def Interchangeable (settings : Settings) (s : State) (before part part' : List Statement) : Prop :=
  ∀ ⦃settings' : Settings⦄ ⦃address : Int64⦄ ⦃u v u' v' : State⦄ ⦃first lines lines' : List Line⦄
    ⦃last last' : Frame⦄,
    Runs settings (expandAt settings settings.limits.depth) ⟨0, .nothing⟩ before s.fresh first
      ⟨address, .nothing⟩ u → Alike u v →
    Runs settings (expandAt settings settings.limits.depth) ⟨address, .nothing⟩ part u lines last
      u' →
    Runs settings' (expandAt settings' settings'.limits.depth) ⟨address, .nothing⟩ part' v lines'
      last' v' →
    counted (leaves lines) = counted (leaves lines') ∧ last = last' ∧ Alike u' v'

section

variable {settings settings' : Settings} {before part part' after : List Statement}

theorem passes_replaced {s t s' t' : State} {lines lines' : List Line}
    (closed : Pending.nothing.afterAll before = .nothing)
    (same : Interchangeable settings s before part part')
    (h : Passes settings (before ++ part ++ after) s lines s')
    (h' : Passes settings' (before ++ part' ++ after) t lines' t')
    (symbols : s.symbols = t.symbols) (macros : s.macros = t.macros) :
    counted (leaves lines) = counted (leaves lines') ∧ s'.symbols = t'.symbols ∧
      s'.macros = t'.macros := by
  have agree := agree_expandAt settings settings' settings.limits.depth settings'.limits.depth
  obtain ⟨last, u, run, rfl⟩ := h
  obtain ⟨last', u', run', rfl⟩ := h'
  obtain ⟨_, m, v, zs, begun, third, rfl⟩ := run.split
  obtain ⟨_, m', v', zs', begun', third', rfl⟩ := run'.split
  obtain ⟨xs, n, w, ys, first, second, rfl⟩ := begun.split
  obtain ⟨xs', n', w', ys', first', second', rfl⟩ := begun'.split
  have fresh : Alike s.fresh t.fresh := ⟨symbols, macros, rfl⟩
  obtain ⟨rfl, rfl, reached⟩ := first.agree agree fresh first'
  -- Before the part both runs agree, so it begins in the same place; after it they agree again.
  obtain ⟨start, pending⟩ := n
  have nothing : pending = .nothing := first.pending.trans closed
  subst nothing
  obtain ⟨counts, rfl, between⟩ := same first reached second second'
  obtain ⟨rfl, rfl, finally_⟩ := third.agree agree between third'
  have ended := alike_finished finally_ last.pending
  exact ⟨by simp [counts], ended.symbols, ended.macros⟩

/-- Replacing a part of a source by one that is interchangeable in both passes keeps the symbols,
the totals and the leaves that count. -/
theorem resolve_replaced {limits : Limits} {patience : Option Nat} {source source' : Bytes}
    {lines lines' : List Line} (h : (resolve limits patience source).result = .ok lines)
    (h' : (resolve limits patience source').result = .ok lines')
    (split : statements source = before ++ part ++ after)
    (split' : statements source' = before ++ part' ++ after)
    (closed : Pending.nothing.afterAll before = .nothing)
    (same : ∀ first t s', pass limits patience 1 false (statements source) .initial = .ok first t →
      pass limits patience 2 true (statements source) t = .ok lines s' →
      resolve limits patience source = .ofResult (.ok lines s') →
      Interchangeable ⟨limits, patience, false⟩
        (State.initial.announced 1 (statements source).length) before part part' ∧
      Interchangeable ⟨limits, patience, true⟩ (t.announced 2 (statements source).length)
        before part part') :
    (resolve limits patience source).symbols = (resolve limits patience source').symbols ∧
      (Totals.ofLines lines).space = (Totals.ofLines lines').space ∧
      counted (leaves lines) = counted (leaves lines') := by
  obtain ⟨first, t, s', one, two, outcome⟩ := resolve_ok h
  obtain ⟨first', t', u', one', two', outcome'⟩ := resolve_ok h'
  have ⟨inFirst, inSecond⟩ := same first t s' one two outcome
  have passed := pass_passes one
  have passed' := pass_passes one'
  have again := pass_passes two
  have again' := pass_passes two'
  generalize (statements source).length = length at *
  generalize (statements source').length = length' at *
  rw [split] at passed again
  rw [split'] at passed' again'
  obtain ⟨-, symbols, macros⟩ := passes_replaced closed inFirst passed passed' rfl rfl
  obtain ⟨counts, symbols, -⟩ := passes_replaced closed inSecond again again' symbols macros
  rw [outcome, outcome']
  refine ⟨symbols, ?_, counts⟩
  rw [space_ofLines, space_ofLines, ← spaceOf_counted, counts, spaceOf_counted]

end

end Asm68k.Resolver
