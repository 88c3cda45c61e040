import Asm68k.Proofs.Listing.Leaves
import Asm68k.Proofs.Resolver.Step

/-!
Runs of the resolver: the steps of a sequence of statements, one after the other. A run is a
consequence of the executable recursion (`resolveFrom_runs`, `expandAt_runs`, `pass_passes`), so
what every step keeps is kept by every pass.
-/

namespace Asm68k.Resolver

open Resolution Line

/-- The steps of some statements from a frame and a state, the lines they give, and the frame and
the state after them. -/
inductive Runs (settings : Settings) (expand : Expander) :
    Frame → List Statement → State → List Line → Frame → State → Prop where
  | nil (frame : Frame) (s : State) : Runs settings expand frame [] s [] frame s
  | cons {frame last : Frame} {statement : Statement} {statements : List Statement}
      {s t s' : State} {line : Line} {lines : List Line} {pending : Pending}
      (stepped : step settings expand frame statement s = .ok (line, pending) t)
      (rest : Runs settings expand ⟨frame.address + line.bytes, pending⟩ statements t lines last
        s') :
      Runs settings expand frame (statement :: statements) s (line :: lines) last s'

namespace State

def finished (s : State) : Pending → State
  | .nothing => s
  | .macroBody name body => (s.withMacro name body.toList).reported (.macroUnclosed name)
  | .repeatBody start _ _ => s.reported (.blockUnclosed start.text)

def charged (s : State) (depth lines : Nat) : State :=
  { s with usage := s.usage.add depth lines, polls := s.polls + 1 }

/-- The state in which a pass begins its work. -/
def fresh (s : State) : State := { s with bss := false, usage := .zero }

def announced (s : State) (number statements : Nat) : State :=
  { s with polls := s.polls + 1, events := .pass number statements :: s.events }

end State

theorem finish_ok {pending : Pending} {s s' : State} {u : Unit} (h : finish pending s = .ok u s') :
    s' = s.finished pending := by
  cases pending <;> · cases h; rfl

section Runs

variable {settings : Settings} {expand : Expander} {frame last : Frame} {s s' : State}
  {lines : List Line}

theorem resolveFrom_runs {statements : List Statement} {done result : List Line}
    (h : resolveFrom settings expand frame done statements s = .ok result s') :
    ∃ lines last t, Runs settings expand frame statements s lines last t ∧
      s' = t.finished last.pending ∧ result = done.reverse ++ lines := by
  induction statements generalizing frame done s with
  | nil =>
    obtain ⟨_, t, finished, h⟩ := bind_ok h
    obtain ⟨rfl, rfl⟩ := pure_ok h
    exact ⟨[], frame, s, .nil frame s, finish_ok finished, by simp⟩
  | cons statement statements ih =>
    obtain ⟨⟨line, pending⟩, t, stepped, h⟩ := bind_ok h
    obtain ⟨lines, last, t', rest, finished, rfl⟩ := ih h
    exact ⟨line :: lines, last, t', .cons stepped rest, finished, by simp⟩

theorem Runs.split {xs ys : List Statement}
    (h : Runs settings expand frame (xs ++ ys) s lines last s') :
    ∃ before middle t after, Runs settings expand frame xs s before middle t ∧
      Runs settings expand middle ys t after last s' ∧ lines = before ++ after := by
  induction xs generalizing frame s lines with
  | nil => exact ⟨[], frame, s, lines, .nil frame s, h, rfl⟩
  | cons statement xs ih =>
    cases h with
    | cons stepped rest =>
      obtain ⟨before, middle, t, after, first, second, rfl⟩ := ih rest
      exact ⟨_, middle, t, after, .cons stepped first, second, rfl⟩

theorem Runs.unique {statements : List Statement} {lines' : List Line} {last' : Frame} {t : State}
    (h : Runs settings expand frame statements s lines last s')
    (h' : Runs settings expand frame statements s lines' last' t) :
    lines = lines' ∧ last = last' ∧ s' = t := by
  induction h generalizing lines' with
  | nil =>
    cases h'
    exact ⟨rfl, rfl, rfl⟩
  | cons stepped rest ih =>
    cases h' with
    | cons stepped' rest' =>
      rw [stepped] at stepped'
      cases stepped'
      obtain ⟨rfl, rfl, rfl⟩ := ih rest'
      exact ⟨rfl, rfl, rfl⟩

/-- What is collected after some statements. -/
def Pending.afterAll (pending : Pending) (statements : List Statement) : Pending :=
  statements.foldl Pending.after pending

theorem Runs.pending {statements : List Statement}
    (h : Runs settings expand frame statements s lines last s') :
    last.pending = frame.pending.afterAll statements := by
  induction h with
  | nil => rfl
  | cons stepped rest ih =>
    rw [ih, (step_stepped stepped).2]
    rfl

theorem stepped_bytes {statement : Statement} {line : Line}
    (h : Stepped settings expand frame statement s line s') :
    line.bytes = extent line.lineLeaves := by
  cases h with
  | repeatEnded => simp
  | invoked => simp
  | _ => simp [blank, plainLine, lineLeaves, bytes, Line.info]

theorem stepped_text {statement : Statement} {line : Line}
    (h : Stepped settings expand frame statement s line s') : line.text = statement.text := by
  cases h <;> rfl

theorem Runs.texts {statements : List Statement}
    (h : Runs settings expand frame statements s lines last s') :
    lines.map Line.text = statements.map Statement.text := by
  induction h with
  | nil => rfl
  | cons stepped rest ih =>
    rw [List.map_cons, List.map_cons, ih, stepped_text (step_stepped stepped).1]

theorem Runs.address {statements : List Statement}
    (h : Runs settings expand frame statements s lines last s') :
    last.address = frame.address + extent (leaves lines) := by
  induction h with
  | nil => simp [leaves]
  | cons stepped rest ih =>
    rw [ih, leaves, extent_append, ← stepped_bytes (step_stepped stepped).1, Int64.add_assoc]

end Runs

/-! ### Statements and their texts -/

/-- The statement is what its text spells. -/
def Spelled (statement : Statement) : Prop := statement = .ofLine statement.text

-- Macro bodies are spelled out again when they are invoked, so they need not be kept track of.
def Pending.Spelled : Pending → Prop
  | .nothing | .macroBody _ _ => True
  | .repeatBody _ body _ => ∀ statement ∈ body.toList, Resolver.Spelled statement

theorem spelled_ofLine (text : Bytes) : Spelled (.ofLine text) := rfl

theorem Pending.Spelled.after {pending : Pending} {statement : Statement}
    (collected : pending.Spelled) (spelled : Resolver.Spelled statement) :
    (pending.after statement).Spelled := by
  cases pending with
  | nothing =>
    rw [Pending.after, begun]
    split
    · split <;> trivial
    · simp [Pending.Spelled]
    · trivial
  | macroBody name body =>
    rw [Pending.after]
    split <;> trivial
  | repeatBody start body nested =>
    have longer : ∀ b ∈ (body.push statement).toList, Resolver.Spelled b := by
      intro b member
      rw [Array.toList_push, List.mem_append, List.mem_singleton] at member
      rcases member with before | rfl
      · exact collected b before
      · exact spelled
    simp only [Pending.after]
    split
    · trivial
    · exact longer
    · exact longer
    · exact longer

/-! ### Expansions and passes -/

/-- What holds of every expansion of a body, and of expansions one after the other, holds of the
copies of the body together. -/
theorem repeatFrom_copies {expand : Expander} {body : List Statement}
    {P : State → List Line → State → Prop} (refl : ∀ s, P s [] s)
    (append : ∀ {s t s' xs ys}, P s xs t → P t ys s' → P s (xs ++ ys) s')
    (one : ∀ {address s lines s'}, expand address body s = .ok lines s' → P s lines s')
    {count : Nat} {address : Int64} {copies result : List (List Line)} {s s' : State}
    (h : repeatFrom expand body count address copies s = .ok result s') :
    ∃ later : List (List Line), result = later.reverse ++ copies ∧ P s later.flatten s' := by
  induction count generalizing s address copies with
  | zero =>
    obtain ⟨rfl, rfl⟩ := pure_ok h
    exact ⟨[], rfl, refl s'⟩
  | succ count ih =>
    obtain ⟨lines, t, expanded, h⟩ := bind_ok h
    obtain ⟨later, rfl, rest⟩ := ih h
    exact ⟨lines :: later, by simp, append (one expanded) rest⟩

variable {settings : Settings}

theorem poll_eq (settings : Settings) (s : State) :
    poll settings s = if isCanceled settings.patience s.polls
      then .error .canceled { s with polls := s.polls + 1 }
      else .ok () { s with polls := s.polls + 1 } := by
  change (if isCanceled settings.patience s.polls then throw .canceled else pure () :
    Resolution Unit) { s with polls := s.polls + 1 } = _
  split <;> rfl

theorem charge_eq (settings : Settings) (depth lines : Nat) (s : State) :
    charge settings depth lines s =
      if settings.limits.lines < (s.usage.add depth lines).lines
        then .error (.tooManyLines settings.limits.lines)
          { s with usage := s.usage.add depth lines }
        else .ok () { s with usage := s.usage.add depth lines } := by
  change (if settings.limits.lines < (s.usage.add depth lines).lines
    then throw (.tooManyLines settings.limits.lines) else pure () :
    Resolution Unit) { s with usage := s.usage.add depth lines } = _
  split <;> rfl

theorem poll_ok {s s' : State} {u : Unit} (h : poll settings s = .ok u s') :
    s' = { s with polls := s.polls + 1 } := by
  rw [poll_eq] at h
  split at h
  · cases h
  · cases h
    rfl

theorem charge_ok {depth lines : Nat} {s s' : State} {u : Unit}
    (h : charge settings depth lines s = .ok u s') :
    (s.usage.add depth lines).lines ≤ settings.limits.lines ∧
      s' = { s with usage := s.usage.add depth lines } := by
  rw [charge_eq] at h
  split at h
  · cases h
  · cases h
    exact ⟨Nat.not_lt.mp ‹_›, rfl⟩

theorem poll_error {s s' : State} {failure : Failure} (h : poll settings s = .error failure s') :
    failure = .canceled ∧ s' = { s with polls := s.polls + 1 } := by
  rw [poll_eq] at h
  split at h
  · cases h
    exact ⟨rfl, rfl⟩
  · cases h

theorem charge_error {depth lines : Nat} {s s' : State} {failure : Failure}
    (h : charge settings depth lines s = .error failure s') :
    failure = .tooManyLines settings.limits.lines ∧
      s' = { s with usage := s.usage.add depth lines } := by
  rw [charge_eq] at h
  split at h
  · cases h
    exact ⟨rfl, rfl⟩
  · cases h

theorem expandAt_runs {levels : Nat} {address : Int64} {statements : List Statement}
    {lines : List Line} {s s' : State}
    (h : expandAt settings levels address statements s = .ok lines s') :
    ∃ inner last t, levels = inner + 1 ∧
      Runs settings (expandAt settings inner) ⟨address, .nothing⟩ statements
        (s.charged (settings.limits.depth - inner) statements.length) lines last t ∧
      s' = t.finished last.pending := by
  cases levels with
  | zero =>
    obtain ⟨_, _, _, h⟩ := bind_ok h
    cases h
  | succ inner =>
    obtain ⟨_, _, polled, h⟩ := bind_ok h
    obtain ⟨_, _, charged, h⟩ := bind_ok h
    rw [(charge_ok charged).2, poll_ok polled] at h
    obtain ⟨lines, last, t, run, finished, rfl⟩ := resolveFrom_runs h
    exact ⟨inner, last, t, rfl, run, finished⟩

/-- A pass over the source: its run at the top level, and the state after it. -/
def Passes (settings : Settings) (statements : List Statement) (s : State) (lines : List Line)
    (s' : State) : Prop :=
  ∃ last t, Runs settings (expandAt settings settings.limits.depth) ⟨0, .nothing⟩ statements s.fresh
    lines last t ∧ s' = t.finished last.pending

theorem resolveSource_passes {statements : List Statement} {lines : List Line} {s s' : State}
    (h : resolveSource settings statements s = .ok lines s') :
    Passes settings statements s lines s' := by
  obtain ⟨_, _, reset, h⟩ := bind_ok h
  cases reset
  obtain ⟨lines, last, t, run, finished, rfl⟩ := resolveFrom_runs h
  exact ⟨last, t, run, finished⟩

theorem adaptExcept_ok {ε ε' σ α : Type} {f : ε → ε'} {x : EStateM ε σ α} {s s' : σ} {a : α}
    (h : EStateM.adaptExcept f x s = .ok a s') : x s = .ok a s' := by
  unfold EStateM.adaptExcept at h
  split at h
  · cases h
  · cases h
    assumption

theorem pass_passes {limits : Limits} {patience : Option Nat} {number : Nat} {isLastPass : Bool}
    {statements : List Statement} {lines : List Line} {s s' : State}
    (h : pass limits patience number isLastPass statements s = .ok lines s') :
    Passes ⟨limits, patience, isLastPass⟩ statements (s.announced number statements.length) lines
      s' := by
  obtain ⟨_, _, announced, h⟩ := bind_ok h
  obtain ⟨_, _, reported, polled⟩ := bind_ok (adaptExcept_ok announced)
  cases reported
  rw [poll_ok polled] at h
  exact resolveSource_passes (adaptExcept_ok h)

theorem exists_ok {ε α : Type} {result : Except ε α} (h : result.isOk = true) :
    ∃ a, result = .ok a := by
  cases result with
  | ok a => exact ⟨a, rfl⟩
  | error => cases h

/-- A source that is resolved is passed over twice. -/
theorem resolve_ok {limits : Limits} {patience : Option Nat} {source : Bytes} {lines : List Line}
    (h : (resolve limits patience source).result = .ok lines) :
    ∃ first t s', pass limits patience 1 false (statements source) .initial = .ok first t ∧
      pass limits patience 2 true (statements source) t = .ok lines s' ∧
      resolve limits patience source = .ofResult (.ok lines s') := by
  unfold resolve at h ⊢
  cases run : (passes limits patience (statements source)).run .initial with
  | error error s' =>
    rw [run] at h
    cases h
  | ok result s' =>
    rw [run] at h
    cases h
    obtain ⟨first, t, one, two⟩ := bind_ok run
    exact ⟨first, t, s', one, two, rfl⟩

end Asm68k.Resolver
