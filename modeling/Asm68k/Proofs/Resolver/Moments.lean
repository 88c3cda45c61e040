import Asm68k.Proofs.Resolver.Run

/-!
Moments of a pass: each statement that is reached, at the top level or in an expansion, with the
frame and the state in which it is reached and the line that it gets. They follow the steps of the
resolver into every expansion and record what is there; the statement of a moment is what its text
spells (`spelled_resolveMoments`).
-/

namespace Asm68k.Resolver

open Resolution

/-- A statement is reached. Nothing is done about it yet, and its line is what it will get. -/
structure Moment where
  frame : Frame
  statement : Statement
  state : State
  line : Line

/-- Some statements are about to be expanded. -/
structure Expansion where
  address : Int64
  statements : List Statement
  state : State

/-! ### Following the resolver -/

/-- The copies of a block, each in the state that the one before it leaves. -/
def copyExpansions (expand : Expander) (body : List Statement) :
    Nat → Int64 → State → List Expansion
  | 0, _, _ => []
  | count + 1, address, s =>
    ⟨address, body, s⟩ ::
      match expand address body s with
      | .ok lines t =>
        copyExpansions expand body count (address + (Totals.ofLines lines).space.bytes) t
      | .error _ _ => []

/-- The expansions of a step: the body of a macro, once the label of the line is defined, or the
copies of a block that ends. -/
def stepExpansions (expand : Expander) (frame : Frame) (statement : Statement) (s : State) :
    List Expansion :=
  match frame.pending with
  | .nothing =>
    match statement.opcode, defineLabel frame.address statement s with
    | some ⟨.invocation name, _, _⟩, .ok _ t =>
      t.macros[name]?.toList.map fun body =>
        ⟨frame.address,
          body.map fun b => .ofLine (substitute (statement.operands.map (·.text)) b.text), t⟩
    | _, _ => []
  | .repeatBody start body 0 =>
    if statement.directive? = some .endRepeat then
      let count := repeatCount s.symbols start
      copyExpansions expand body.toList count.toInt.toNat frame.address
        (s.reported (.blockRepeated count body.size))
    else []
  | _ => []

def momentsFrom (settings : Settings) (expand : Expander) (inside : Expansion → List Moment) :
    Frame → List Statement → State → List Moment
  | _, [], _ => []
  | frame, statement :: statements, s =>
    match step settings expand frame statement s with
    | .ok (line, pending) t =>
      ⟨frame, statement, s, line⟩ :: (stepExpansions expand frame statement s).flatMap inside ++
        momentsFrom settings expand inside ⟨frame.address + line.bytes, pending⟩ statements t
    | .error _ _ => []

/-- The moments of an expansion when `levels` more levels are allowed. -/
def momentsIn (settings : Settings) : (levels : Nat) → Expansion → List Moment
  | 0, _ => []
  | levels + 1, ⟨address, statements, s⟩ =>
    momentsFrom settings (expandAt settings levels) (momentsIn settings levels)
      ⟨address, .nothing⟩ statements
      (s.charged (settings.limits.depth - levels) statements.length)

/-- The moments of a pass that succeeds. -/
def passMoments (limits : Limits) (patience : Option Nat) (number : Nat) (isLastPass : Bool)
    (statements : List Statement) (s : State) : List Moment :=
  let settings : Settings := { limits, patience, isLastPass }
  momentsFrom settings (expandAt settings limits.depth) (momentsIn settings limits.depth)
    ⟨0, .nothing⟩ statements (s.announced number statements.length).fresh

/-- The moments of the second pass over a source, if the first succeeds. -/
def resolveMoments (limits : Limits) (patience : Option Nat) (source : Bytes) : List Moment :=
  match pass limits patience 1 false (statements source) .initial with
  | .ok _ s => passMoments limits patience 2 true (statements source) s
  | .error _ _ => []

section

variable {settings : Settings} {expand : Expander} {inside : Expansion → List Moment}
  {frame : Frame} {statement : Statement} {statements : List Statement} {s t : State}

theorem momentsFrom_cons {line : Line} {pending : Pending}
    (h : step settings expand frame statement s = .ok (line, pending) t) :
    momentsFrom settings expand inside frame (statement :: statements) s =
      ⟨frame, statement, s, line⟩ :: (stepExpansions expand frame statement s).flatMap inside ++
        momentsFrom settings expand inside ⟨frame.address + line.bytes, pending⟩ statements t := by
  rw [momentsFrom, h]

/-! ### Expansions of single steps -/

theorem stepExpansions_invocation {opcode : Opcode} {name : Bytes}
    (idle : frame.pending = .nothing) (spelled : statement.opcode = some opcode)
    (invokes : opcode.operation = .invocation name) :
    stepExpansions expand frame statement s = s.macros[name]?.toList.map fun body =>
      ⟨frame.address,
        body.map fun b => .ofLine (substitute (statement.operands.map (·.text)) b.text),
        s.labelled frame.address statement⟩ := by
  obtain ⟨operation, start, size⟩ := opcode
  cases invokes
  rw [stepExpansions, idle, spelled, defineLabel_eq]
  dsimp only
  rw [State.labelled_macros]

theorem stepExpansions_idle (idle : frame.pending = .nothing)
    (own : ∀ name start size, statement.opcode ≠ some ⟨.invocation name, start, size⟩) :
    stepExpansions expand frame statement s = [] := by
  rw [stepExpansions, idle, defineLabel_eq]
  dsimp only
  split
  · rename_i spelled _
    exact absurd spelled (own _ _ _)
  · rfl

theorem stepExpansions_repeatEnded {start : Statement} {body : Array Statement}
    (collected : frame.pending = .repeatBody start body 0)
    (ends : statement.directive? = some .endRepeat) :
    stepExpansions expand frame statement s =
      copyExpansions expand body.toList (repeatCount s.symbols start).toInt.toNat frame.address
        (s.reported (.blockRepeated (repeatCount s.symbols start) body.size)) := by
  rw [stepExpansions, collected]
  exact if_pos ends

theorem stepExpansions_collected (collecting : frame.pending ≠ .nothing)
    (unfinished : frame.pending.after statement ≠ .nothing) :
    stepExpansions expand frame statement s = [] := by
  unfold stepExpansions
  split
  · exact absurd ‹_› collecting
  · rename_i start body here
    rw [here] at unfinished
    exact if_neg fun ends => unfinished (by simp [Pending.after, ends])
  · rfl

/-! ### Statements of moments -/

theorem spelled_copyExpansions {body : List Statement} {count : Nat} {address : Int64}
    (spelled : ∀ b ∈ body, Spelled b) :
    ∀ expansion ∈ copyExpansions expand body count address s,
      ∀ b ∈ expansion.statements, Spelled b := by
  induction count generalizing address s with
  | zero => simp [copyExpansions]
  | succ count ih =>
    rw [copyExpansions]
    refine List.forall_mem_cons.mpr ⟨spelled, ?_⟩
    split
    · exact ih
    · simp

theorem spelled_stepExpansions (collected : frame.pending.Spelled) :
    ∀ expansion ∈ stepExpansions expand frame statement s,
      ∀ b ∈ expansion.statements, Spelled b := by
  unfold stepExpansions
  split
  · split
    · intro expansion member b inBody
      obtain ⟨body, -, rfl⟩ := List.mem_map.mp member
      obtain ⟨_, -, rfl⟩ := List.mem_map.mp inBody
      exact spelled_ofLine _
    · simp
  · rename_i start body here
    rw [here] at collected
    split
    · exact spelled_copyExpansions collected
    · simp
  · simp

theorem spelled_momentsFrom
    (below : ∀ expansion, (∀ b ∈ expansion.statements, Spelled b) →
      ∀ m ∈ inside expansion, Spelled m.statement)
    (spelled : ∀ b ∈ statements, Spelled b) (collected : frame.pending.Spelled) :
    ∀ m ∈ momentsFrom settings expand inside frame statements s, Spelled m.statement := by
  induction statements generalizing frame s with
  | nil => simp [momentsFrom]
  | cons statement statements ih =>
    obtain ⟨first, later⟩ := List.forall_mem_cons.mp spelled
    rw [momentsFrom]
    split
    · rename_i stepped
      obtain ⟨-, rfl⟩ := step_stepped stepped
      refine List.forall_mem_cons.mpr ⟨first, List.forall_mem_append.mpr ⟨?_, ?_⟩⟩
      · intro m member
        obtain ⟨expansion, asked, reached⟩ := List.mem_flatMap.mp member
        exact below expansion (spelled_stepExpansions collected expansion asked) m reached
      · exact ih later (collected.after first)
    · simp

theorem spelled_momentsIn (settings : Settings) (levels : Nat) (expansion : Expansion)
    (spelled : ∀ b ∈ expansion.statements, Spelled b) :
    ∀ m ∈ momentsIn settings levels expansion, Spelled m.statement := by
  induction levels generalizing expansion with
  | zero => simp [momentsIn]
  | succ levels ih => exact spelled_momentsFrom ih spelled trivial

theorem spelled_resolveMoments (limits : Limits) (patience : Option Nat) (source : Bytes) :
    ∀ m ∈ resolveMoments limits patience source, Spelled m.statement := by
  unfold resolveMoments
  split
  · refine spelled_momentsFrom (spelled_momentsIn _ _) ?_ trivial
    intro b member
    obtain ⟨text, -, rfl⟩ := List.mem_map.mp member
    exact spelled_ofLine text
  · simp

end

end Asm68k.Resolver
