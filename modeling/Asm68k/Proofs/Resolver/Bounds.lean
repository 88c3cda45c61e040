import Mathlib.Algebra.Ring.Nat
import Asm68k.Proofs.Bytes
import Asm68k.Proofs.Resolver.Congruence
import Asm68k.Proofs.Resolver.Log

/-!
The limits bound the work on every source and what comes of it. Each expansion that is begun is
charged at least one line or ends the pass, so a pass begins at most one more than there may be
lines, whatever the macros do to each other. The lines below the source lines are all charged, and
they lie no deeper than the expanders.
-/

namespace Asm68k.Line

mutual

/-- The number of levels of lines below a line. An expansion without lines has none. -/
def height : Line → Nat
  | .plain _ => 0
  | .expanded _ body => levels body

def levels : List Line → Nat
  | [] => 0
  | line :: lines => max (line.height + 1) (levels lines)

end

mutual

/-- The number of lines below a line, at every depth. -/
def descendants : Line → Nat
  | .plain _ => 0
  | .expanded _ body => size body

def size : List Line → Nat
  | [] => 0
  | line :: lines => line.descendants + 1 + size lines

end

theorem levels_le {lines : List Line} {depth : Nat} (h : ∀ line ∈ lines, line.height ≤ depth) :
    levels lines ≤ depth + 1 := by
  induction lines with
  | nil => exact Nat.zero_le _
  | cons line lines ih =>
    have here := h line List.mem_cons_self
    have rest := ih fun other member => h other (List.mem_cons_of_mem _ member)
    rw [levels]
    omega

theorem levels_append (xs ys : List Line) : levels (xs ++ ys) = max (levels xs) (levels ys) := by
  induction xs with
  | nil => simp [levels]
  | cons line lines ih => simp [levels, ih, Nat.max_assoc]

theorem size_append (xs ys : List Line) : size (xs ++ ys) = size xs + size ys := by
  induction xs with
  | nil => simp [size]
  | cons line lines ih =>
    rw [List.cons_append, size, ih, size]
    omega

theorem size_eq (lines : List Line) : size lines = lines.length + (lines.map descendants).sum := by
  induction lines with
  | nil => rfl
  | cons line lines ih =>
    rw [size, ih, List.length_cons, List.map_cons, List.sum_cons]
    omega

end Asm68k.Line

namespace Asm68k.Resolver

open Resolution Line

/-! ### Expansions that are begun -/

/-- The number of expansions that a computation begins: it asks once before each. -/
def expansionsBegun {α : Type} (x : Resolution α) (s : State) : Nat :=
  (stateOf (x s)).polls - s.polls

/-- The computation asks no more often than it charges lines, but once more where it fails. -/
structure Metered {α : Type} (limits : Limits) (x : Resolution α) : Prop where
  ok ⦃s : State⦄ ⦃a : α⦄ ⦃s' : State⦄ : s.usage.lines ≤ limits.lines → x s = .ok a s' →
    s'.usage.lines ≤ limits.lines ∧ s'.polls + s.usage.lines ≤ s.polls + s'.usage.lines
  error ⦃s : State⦄ ⦃failure : Failure⦄ ⦃s' : State⦄ : s.usage.lines ≤ limits.lines →
    x s = .error failure s' → s'.polls + s.usage.lines ≤ s.polls + limits.lines + 1

section

variable {α β : Type} {limits : Limits} {settings : Settings}

theorem Metered.bind {x : Resolution α} {f : α → Resolution β} (first : Metered limits x)
    (rest : ∀ a, Metered limits (f a)) : Metered limits (x >>= f) where
  ok s b s' within h := by
    obtain ⟨a, t, hx, hf⟩ := bind_ok h
    obtain ⟨between, paid⟩ := first.ok within hx
    obtain ⟨after, paid'⟩ := (rest a).ok between hf
    exact ⟨after, by omega⟩
  error s failure s' within h := by
    rcases bind_error h with failed | ⟨a, t, hx, failed⟩
    · exact first.error within failed
    · obtain ⟨between, paid⟩ := first.ok within hx
      have paid' := (rest a).error between failed
      omega

theorem metered_congruence (limits : Limits) : Congruence fun _ x _ => Metered limits x where
  quiet {_ x} quiet := by
    constructor
    · intro s a s' within h
      obtain ⟨_, _, done, polls, usage⟩ := quiet s
      rw [done] at h
      cases h
      rw [polls, usage]
      exact ⟨within, Nat.le_refl _⟩
    · intro s failure s' within h
      obtain ⟨_, _, done, -⟩ := quiet s
      rw [done] at h
      cases h
  bind first rest := first.bind rest

theorem metered_resolveFrom {expand : Expander}
    (below : ∀ address body, Metered limits (expand address body)) (frame : Frame)
    (done : List Line) (statements : List Statement) :
    Metered limits (resolveFrom settings expand frame done statements) :=
  @Congruence.resolveFrom _ settings settings expand expand (metered_congruence limits) rfl below
    _ _ _

/-- What every expansion begins with is paid for by its lines; an empty one pays for one. -/
theorem charged_metered (settings : Settings) (depth count : Nat) :
    Metered settings.limits (poll settings >>= fun _ => charge settings depth count) where
  ok s u s' within h := by
    obtain ⟨_, _, polled, charged⟩ := bind_ok h
    obtain ⟨admitted, rfl⟩ := charge_ok charged
    rw [poll_ok polled] at admitted ⊢
    simp only [Usage.add] at admitted ⊢
    exact ⟨admitted, by omega⟩
  error s failure s' within h := by
    rcases bind_error h with failed | ⟨_, _, polled, failed⟩
    · rw [(poll_error failed).2]
      dsimp only
      omega
    · rw [(charge_error failed).2, poll_ok polled]
      dsimp only
      omega

theorem expandAt_metered (settings : Settings) (levels : Nat) (address : Int64)
    (statements : List Statement) :
    Metered settings.limits (expandAt settings levels address statements) := by
  induction levels generalizing address statements with
  | zero =>
    constructor
    · intro s lines s' within h
      obtain ⟨_, _, _, ⟨⟩⟩ := bind_ok h
    · intro s failure s' within h
      rcases bind_error h with failed | ⟨_, _, polled, ⟨⟩⟩
      · rw [(poll_error failed).2]
        dsimp only
        omega
      · rw [poll_ok polled]
        dsimp only
        omega
  | succ levels ih =>
    rw [expandAt, ← bind_assoc]
    exact (charged_metered settings _ _).bind fun _ => metered_resolveFrom ih _ _ _

theorem resolveSource_begins (settings : Settings) (statements : List Statement) (s : State) :
    (stateOf (resolveSource settings statements s)).polls ≤ s.polls + settings.limits.lines + 1 := by
  have metered : Metered settings.limits (resolveFrom settings
      (expandAt settings settings.limits.depth) ⟨0, .nothing⟩ [] statements) :=
    metered_resolveFrom (expandAt_metered settings settings.limits.depth) _ _ _
  have fresh : s.fresh.usage.lines ≤ settings.limits.lines := Nat.zero_le _
  have same : resolveSource settings statements s = resolveFrom settings
      (expandAt settings settings.limits.depth) ⟨0, .nothing⟩ [] statements s.fresh := rfl
  rw [same]
  cases run : resolveFrom settings (expandAt settings settings.limits.depth) ⟨0, .nothing⟩ []
      statements s.fresh with
  | ok lines s' =>
    obtain ⟨within, paid⟩ := metered.ok fresh run
    simp only [State.fresh, Usage.zero] at paid
    simp only [stateOf]
    omega
  | error failure s' =>
    have paid := metered.error fresh run
    simp only [State.fresh, Usage.zero] at paid
    exact paid

theorem pass_cases (limits : Limits) (patience : Option Nat) (number : Nat) (isLastPass : Bool)
    (statements : List Statement) (s : State) :
    pass limits patience number isLastPass statements s =
        .error (.beforePass .canceled) (s.announced number statements.length) ∨
      pass limits patience number isLastPass statements s =
        EStateM.adaptExcept (.duringPass number)
          (resolveSource ⟨limits, patience, isLastPass⟩ statements)
          (s.announced number statements.length) := by
  let settings : Settings := ⟨limits, patience, isLastPass⟩
  have reported : report (.pass number statements.length) s =
      .ok () (s.reported (.pass number statements.length)) := rfl
  unfold pass
  cases polled : poll settings (s.reported (.pass number statements.length)) with
  | ok u t =>
    have announced : (report (.pass number statements.length) >>= fun _ => poll settings) s =
        .ok u (s.announced number statements.length) := by
      rw [bind_of_ok reported, polled, poll_ok polled]
      rfl
    exact .inr (bind_of_ok (adaptExcept_of_ok announced))
  | error failure t =>
    obtain ⟨rfl, rfl⟩ := poll_error polled
    left
    change EStateM.bind (EStateM.adaptExcept _ (EStateM.bind _ _)) _ s = _
    rw [EStateM.bind, EStateM.adaptExcept, EStateM.bind, reported]
    dsimp only
    rw [polled]
    rfl

theorem pass_begins (limits : Limits) (patience : Option Nat) (number : Nat) (isLastPass : Bool)
    (statements : List Statement) (s : State) :
    (stateOf (pass limits patience number isLastPass statements s)).polls ≤
      s.polls + limits.lines + 2 := by
  have later := resolveSource_begins ⟨limits, patience, isLastPass⟩ statements
    (s.announced number statements.length)
  rcases pass_cases limits patience number isLastPass statements s with canceled | resolved
  · rw [canceled]
    simp only [stateOf, State.announced]
    omega
  · rw [resolved, stateOf_adaptExcept]
    simp only [State.announced] at later ⊢
    omega

theorem passes_begins (limits : Limits) (patience : Option Nat) (statements : List Statement)
    (s : State) :
    (stateOf (passes limits patience statements s)).polls ≤ s.polls + 2 * (limits.lines + 2) := by
  have first := pass_begins limits patience 1 false statements s
  change (stateOf (EStateM.bind (pass limits patience 1 false statements) _ s)).polls ≤ _
  unfold EStateM.bind
  cases one : pass limits patience 1 false statements s with
  | error error t =>
    rw [one] at first
    simp only [stateOf] at first ⊢
    omega
  | ok lines t =>
    have second := pass_begins limits patience 2 true statements t
    rw [one] at first
    simp only [stateOf] at first
    dsimp only
    omega

end

/-! ### Lines below the source -/

/-- Between two states the lines below some lines are charged, and they are not too deep. -/
structure Contained (levels : Nat) (s : State) (lines : List Line) (s' : State) : Prop where
  height : ∀ line ∈ lines, line.height ≤ levels
  descendants : (lines.map descendants).sum + s.usage.lines ≤ s'.usage.lines

/-- Between two states some lines are charged, which lie in not too many levels. -/
structure Charged (levels : Nat) (s : State) (lines : List Line) (s' : State) : Prop where
  levels : Line.levels lines ≤ levels
  size : size lines + s.usage.lines ≤ s'.usage.lines

def Contains (levels : Nat) (expand : Expander) : Prop :=
  ∀ ⦃address statements s lines s'⦄, expand address statements s = .ok lines s' →
    Charged levels s lines s'

section

variable {settings : Settings} {expand : Expander} {levels : Nat} {s t s' : State}

theorem contained_leaf {line : Line} (height : line.height = 0) (descendants : line.descendants = 0)
    (usage : s'.usage = s.usage) : Contained levels s [line] s' where
  height := by simp [height]
  descendants := by simp [descendants, usage]

theorem contained_expansion {body : List Line} (charged : Charged levels s body s') (text : Bytes)
    (bss : Bool) : Contained levels s [.ofExpansion text bss body] s' where
  height := by simpa [ofExpansion, Line.height] using charged.levels
  descendants := by simpa [ofExpansion, Line.descendants] using charged.size

theorem Charged.append {xs ys : List Line} (hx : Charged levels s xs t)
    (hy : Charged levels t ys s') : Charged levels s (xs ++ ys) s' where
  levels := by
    rw [levels_append]
    exact Nat.max_le.mpr ⟨hx.levels, hy.levels⟩
  size := by
    have before := hx.size
    have after := hy.size
    rw [size_append]
    omega

theorem Contained.append {xs ys : List Line} (hx : Contained levels s xs t)
    (hy : Contained levels t ys s') : Contained levels s (xs ++ ys) s' where
  height line member := by
    rcases List.mem_append.mp member with left | right
    · exact hx.height line left
    · exact hy.height line right
  descendants := by
    have before := hx.descendants
    have after := hy.descendants
    rw [List.map_append, List.sum_append]
    omega

theorem stepped_contained (contains : Contains levels expand) {frame : Frame}
    {statement : Statement} {line : Line}
    (h : Stepped settings expand frame statement s line s') : Contained levels s [line] s' := by
  cases h with
  | collected | macroEnded | blank | macroBegun | switched => exact contained_leaf rfl rfl rfl
  | plain => exact contained_leaf rfl rfl (s.labelled_usage _ _)
  | assigned => exact contained_leaf rfl rfl (s.assigned_usage _ _)
  | ignored pending spelled invokes unknown after =>
    refine contained_leaf rfl rfl ?_
    rcases after with rfl | rfl <;> exact s.labelled_usage _ _
  | invoked pending spelled invokes known run =>
    obtain ⟨height, charged⟩ := contains run
    rw [s.labelled_usage] at charged
    exact contained_expansion ⟨height, charged⟩ _ _
  | repeatEnded pending ends run =>
    have empty (s : State) : Charged levels s [] s := ⟨Nat.zero_le _, by simp [size]⟩
    obtain ⟨later, rfl, height, charged⟩ :=
      repeatFrom_copies empty .append (fun expanded => contains expanded) run
    rw [List.append_nil, List.reverse_reverse]
    have fromHere : size later.flatten + s.usage.lines ≤ s'.usage.lines := charged
    exact contained_expansion ⟨height, fromHere⟩ _ _

theorem Runs.contained (contains : Contains levels expand) {frame last : Frame}
    {statements : List Statement} {lines : List Line}
    (h : Runs settings expand frame statements s lines last s') :
    Contained levels s lines s' := by
  induction h with
  | nil => exact ⟨nofun, by simp⟩
  | cons stepped rest ih =>
    have first := stepped_contained contains (step_stepped stepped).1
    rw [← List.singleton_append]
    exact first.append ih

theorem expandAt_contains (settings : Settings) (levels : Nat) :
    Contains levels (expandAt settings levels) := by
  induction levels with
  | zero =>
    intro address statements s lines s' h
    obtain ⟨inner, _, _, levels, _⟩ := expandAt_runs h
    cases levels
  | succ levels ih =>
    intro address statements s lines s' h
    obtain ⟨_, last, t, ⟨rfl⟩, run, rfl⟩ := expandAt_runs h
    have contained := run.contained ih
    have count : lines.length = statements.length := by
      rw [← List.length_map Line.text, run.texts, List.length_map]
    have charged := contained.descendants
    simp only [State.charged, Usage.add] at charged
    refine ⟨levels_le contained.height, ?_⟩
    rw [t.finished_usage, size_eq, count]
    omega

theorem Passes.contained {statements : List Statement} {lines : List Line}
    (h : Passes settings statements s lines s') :
    (∀ line ∈ lines, line.height ≤ settings.limits.depth) ∧
      (lines.map descendants).sum ≤ settings.limits.lines := by
  have fits := h.spent.2.lines
  obtain ⟨last, t, run, rfl⟩ := h
  have contained := run.contained (expandAt_contains settings settings.limits.depth)
  rw [t.finished_usage] at fits
  have charged := contained.descendants
  simp only [State.fresh, Usage.zero] at charged
  exact ⟨contained.height, by omega⟩

end

/-- Every source is resolved or refused after a bounded number of expansions, whatever its macros
and blocks are: a pass begins at most one more than there may be lines. The lines that come of a
source lie at most as deep as the limit says, and there are not more of them below the source lines
than the limit says. -/
theorem resolve_bounded (limits : Limits) (patience : Option Nat) (source : Bytes) :
    (∀ isLastPass s, expansionsBegun
      (resolveSource ⟨limits, patience, isLastPass⟩ (statements source)) s ≤ limits.lines + 1) ∧
    (resolve limits patience source).polls ≤ 2 * (limits.lines + 2) ∧
    ∀ lines, (resolve limits patience source).result = .ok lines →
      (∀ line ∈ lines, line.height ≤ limits.depth) ∧
        (lines.map descendants).sum ≤ limits.lines := by
  refine ⟨?_, ?_, ?_⟩
  · intro isLastPass s
    have begins := resolveSource_begins ⟨limits, patience, isLastPass⟩ (statements source) s
    simp only [expansionsBegun] at begins ⊢
    omega
  · have begins := passes_begins limits patience (statements source) .initial
    rw [polls_resolve]
    simpa [State.initial] using begins
  · intro lines h
    obtain ⟨first, t, s', -, two, -⟩ := resolve_ok h
    exact (pass_passes two).contained

/-- A macro with a block that is left out and one that is copied. -/
def blocksInMacro : Bytes :=
  Bytes.ofLines (["m macro", " rept 0", " endr", " rept 2", " dc.b 1", " endr", " endm", " m"].map
    Bytes.ofString)

/-- An empty block with as many copies as a word can count. -/
def endlessBlock : Bytes :=
  Bytes.ofLines ([" rept 9223372036854775807", " endr"].map Bytes.ofString)

theorem resolve_bounded_blocks :
    (∃ lines, (resolve ⟨2, 7⟩ none blocksInMacro).result = .ok lines ∧
      (∀ line ∈ lines, line.height ≤ 2) ∧ (lines.map descendants).sum ≤ 7) ∧
    (resolve ⟨1, 3⟩ none endlessBlock).result.isOk = false ∧
    expansionsBegun (resolveSource ⟨⟨1, 3⟩, none, false⟩ (statements endlessBlock)) .initial = 4 ∧
    (∀ isLastPass s, expansionsBegun
      (resolveSource ⟨⟨1, 3⟩, none, isLastPass⟩ (statements endlessBlock)) s ≤ 4) := by
  obtain ⟨resolved, refused, begun⟩ :
      (resolve ⟨2, 7⟩ none blocksInMacro).result.isOk = true ∧
      (resolve ⟨1, 3⟩ none endlessBlock).result.isOk = false ∧
      expansionsBegun (resolveSource ⟨⟨1, 3⟩, none, false⟩ (statements endlessBlock)) .initial =
        4 := by
    decide +kernel
  obtain ⟨lines, h⟩ := exists_ok resolved
  exact ⟨⟨lines, h, (resolve_bounded ⟨2, 7⟩ none blocksInMacro).2.2 lines h⟩, refused, begun,
    (resolve_bounded ⟨1, 3⟩ none endlessBlock).1⟩

end Asm68k.Resolver
