import Asm68k.Proofs.Resolver.Execution
import Asm68k.Proofs.Resolver.Walk

/-!
Labels of lines at the top level. A line defines its label unless it frames a macro or a block or
selects a section; on those the label has no effect at all: `resolve_labels`.
-/

namespace Asm68k.Resolver

open Resolution

/-- The line is carried out at the top level: it is not put into the body of a macro or a block. -/
def Acts (before : List Statement) (statement : Statement) : Prop :=
  Pending.nothing.afterAll before = .nothing ∨
    (Pending.nothing.afterAll before).after statement = .nothing

/-- A line that is carried out gives its label the address. Assignments and macros use theirs
otherwise. -/
structure Places (before : List Statement) (statement : Statement) : Prop where
  idle : Pending.nothing.afterAll before = .nothing
  noBlock : statement.directive? ≠ some .beginRepeat
  noSection : ∀ directive ∈ statement.directive?, directive.isSection = false

/-! ### Symbols that are known stay known -/

section

variable {s s' : State} {name : Bytes}

theorem mem_bind {symbols : Symbols} (member : name ∈ symbols) (m : Moment) (address : Int64) :
    name ∈ m.bind symbols address := by
  unfold Moment.bind
  split
  · exact Std.ExtTreeMap.mem_insert.mpr (.inr member)
  · exact member

theorem Walks.mem_symbols {flat last : Flat} {moments : List Moment} (h : Walks flat moments last)
    (member : name ∈ flat.symbols) : name ∈ last.symbols := by
  induction h with
  | nil => exact member
  | cons placed rest ih => exact ih (mem_bind member _ _)

theorem mem_labelled {statement : Statement} {label : Label}
    (labelled : statement.label = some label)
    (s : State) (address : Int64) : label.name ∈ (s.labelled address statement).symbols := by
  rw [State.labelled, labelled]
  exact Std.ExtTreeMap.mem_insert_self

/-- The step of a line that places its label defines it. -/
theorem Stepped.mem_label {settings : Settings} {expand : Expander}
    {inside : Expansion → List Moment} {frame : Frame} {before : List Statement}
    {statement : Statement} {label : Label} {line : Line} (follows : Follows expand inside)
    (idle : frame.pending = .nothing) (labelled : statement.label = some label)
    (noAssignment : ∀ spelling, statement.directive? ≠ some (.assign spelling))
    (noMacro : statement.directive? ≠ some .beginMacro) (places : Places before statement)
    (stepped : Stepped settings expand frame statement s line s') : label.name ∈ s'.symbols := by
  have defined := mem_labelled labelled s frame.address
  cases stepped with
  | collected pending => exact (pending idle).elim
  | macroEnded pending | repeatEnded pending =>
    rw [idle] at pending
    cases pending
  | blank _ inert =>
    rcases inert with ⟨-, unlabelled⟩ | ⟨begins, -⟩ | begins
    · rw [labelled] at unlabelled
      cases unlabelled
    · exact (noMacro begins).elim
    · exact (places.noBlock begins).elim
  | plain => exact defined
  | assigned _ spelled => exact (noAssignment _ spelled).elim
  | macroBegun _ spelled => exact (noMacro spelled).elim
  | switched _ spelled sectional =>
    rw [places.noSection _ spelled] at sectional
    cases sectional
  | ignored _ _ _ _ after =>
    rcases after with rfl | rfl
    · exact defined
    · exact defined
  -- The label is defined before the body is resolved.
  | invoked _ _ _ _ run => exact (follows run).walks.mem_symbols defined

end

theorem Passes.mem_label {settings : Settings} {before after : List Statement}
    {statement : Statement} {label : Label} {s s' : State} {lines : List Line}
    (labelled : statement.label = some label)
    (noAssignment : ∀ spelling, statement.directive? ≠ some (.assign spelling))
    (noMacro : statement.directive? ≠ some .beginMacro) (places : Places before statement)
    (h : Passes settings (before ++ statement :: after) s lines s') : label.name ∈ s'.symbols := by
  obtain ⟨last, t, run, rfl⟩ := h
  obtain ⟨_, frame, u, _, first, second, -⟩ := run.split
  have follows := expandAt_follows settings settings.limits.depth
  have idle : frame.pending = .nothing := first.pending.trans places.idle
  cases second with
  | cons stepped rest =>
    have defined := (step_stepped stepped).1.mem_label follows idle labelled noAssignment noMacro
      places
    have kept := (rest.walked follows).walks.mem_symbols defined
    rw [← State.finished_flat t last.pending] at kept
    exact kept

/-! ### Labels without effect -/

end Asm68k.Resolver

namespace Asm68k

def Statement.unlabelled (statement : Statement) : Statement := { statement with label := none }

namespace Resolver

open Resolution

variable {settings : Settings} {expand : Expander}

theorem bind_congr_ok {α β : Type} {x : Resolution α} {f g : α → Resolution β} {s : State}
    (same : ∀ a t, x s = .ok a t → f a t = g a t) : (x >>= f) s = (x >>= g) s := by
  change EStateM.bind x f s = EStateM.bind x g s
  unfold EStateM.bind
  split
  · exact same _ _ ‹_›
  · rfl

/-- Of the statement that begins a block only the operands and the text are used later. -/
theorem resolveFrom_begun (start : Statement) (body : Array Statement) (nested : Nat)
    (address : Int64) (done : List Line) (statements : List Statement) :
    resolveFrom settings expand ⟨address, .repeatBody start body nested⟩ done statements =
      resolveFrom settings expand ⟨address, .repeatBody start.unlabelled body nested⟩ done
        statements := by
  induction statements generalizing body nested address done with
  | nil => rfl
  | cons statement statements ih =>
    rw [resolveFrom, resolveFrom]
    unfold step
    dsimp only
    split
    · rfl
    all_goals
      simp only [pure_bind]
      simp only [ih]

theorem step_section {address : Int64} {statement : Statement} {directive : Directive}
    (spelled : statement.directive? = some directive) (sectional : directive.isSection = true) :
    step settings expand ⟨address, .nothing⟩ statement =
      step settings expand ⟨address, .nothing⟩ statement.unlabelled := by
  have spelled' : statement.unlabelled.directive? = some directive := spelled
  rw [step_directive spelled, step_directive spelled']
  cases directive with
  | namedSection | segment => rfl
  | _ => cases sectional

/-- The end of a macro or a block. -/
theorem step_end {frame : Frame} {statement : Statement} (pending : frame.pending ≠ .nothing)
    (ends : frame.pending.after statement = .nothing) :
    step settings expand frame statement = step settings expand frame statement.unlabelled := by
  obtain ⟨address, before⟩ := frame
  cases before with
  | nothing => exact (pending rfl).elim
  | macroBody name body =>
    have last : statement.directive? = some .endMacro := by
      unfold Pending.after at ends
      dsimp only at ends
      split at ends
      · assumption
      · cases ends
    have last' : statement.unlabelled.directive? = some .endMacro := last
    funext s
    rw [step_endMacro last, step_endMacro last']
    rfl
  | repeatBody start body nested =>
    have last : statement.directive? = some .endRepeat ∧ nested = 0 := by
      unfold Pending.after at ends
      dsimp only at ends
      split at ends
      · exact ⟨‹_›, rfl⟩
      all_goals cases ends
    obtain ⟨directive, rfl⟩ := last
    have directive' : statement.unlabelled.directive? = some .endRepeat := directive
    rw [step_endRepeat directive, step_endRepeat directive']
    rfl

/-- The label of a line that is carried out and does not place it might as well be missing. -/
theorem resolveFrom_unlabelled {frame : Frame} {statement : Statement}
    (acts : frame.pending = .nothing ∨ frame.pending.after statement = .nothing)
    (unplaced : frame.pending = .nothing → statement.directive? = some .beginRepeat ∨
      ∃ directive, statement.directive? = some directive ∧ directive.isSection = true)
    (done : List Line) (after : List Statement) :
    resolveFrom settings expand frame done (statement :: after) =
      resolveFrom settings expand frame done (statement.unlabelled :: after) := by
  have stepwise (same : step settings expand frame statement =
      step settings expand frame statement.unlabelled) :
      resolveFrom settings expand frame done (statement :: after) =
        resolveFrom settings expand frame done (statement.unlabelled :: after) := by
    rw [resolveFrom, resolveFrom, same]
  by_cases idle : frame.pending = .nothing
  · obtain ⟨address, pending⟩ := frame
    cases idle
    rcases unplaced rfl with begins | ⟨directive, spelled, sectional⟩
    · have begins' : statement.unlabelled.directive? = some .beginRepeat := begins
      funext s
      rw [resolveFrom, resolveFrom, bind_of_ok (step_beginRepeat begins),
        bind_of_ok (step_beginRepeat begins')]
      simp only [resolveFrom_begun statement]
      rfl
    · exact stepwise (step_section spelled sectional)
  · exact stepwise (step_end idle (acts.resolve_left idle))

/-- Statements that are resolved alike wherever those before them lead. -/
theorem resolveFrom_append {before statements statements' : List Statement} {pending : Pending}
    (same : ∀ (address : Int64) (done : List Line),
      resolveFrom settings expand ⟨address, pending.afterAll before⟩ done statements =
        resolveFrom settings expand ⟨address, pending.afterAll before⟩ done statements')
    (address : Int64) (done : List Line) :
    resolveFrom settings expand ⟨address, pending⟩ done (before ++ statements) =
      resolveFrom settings expand ⟨address, pending⟩ done (before ++ statements') := by
  induction before generalizing pending address done with
  | nil => exact same address done
  | cons statement before ih =>
    funext s
    rw [List.cons_append, List.cons_append, resolveFrom, resolveFrom]
    apply bind_congr_ok
    rintro ⟨line, next⟩ t stepped
    obtain rfl := (step_stepped stepped).2
    dsimp only
    rw [ih same]

theorem passes_unlabelled {before after : List Statement} {statement : Statement}
    (acts : Acts before statement) (unplaced : ¬Places before statement) (limits : Limits)
    (patience : Option Nat) :
    passes limits patience (before ++ statement :: after) =
      passes limits patience (before ++ statement.unlabelled :: after) := by
  have framed (idle : Pending.nothing.afterAll before = .nothing) :
      statement.directive? = some .beginRepeat ∨
        ∃ directive, statement.directive? = some directive ∧ directive.isSection = true := by
    apply Classical.byContradiction
    intro neither
    refine unplaced ⟨idle, fun begins => neither (.inl begins), ?_⟩
    intro directive spelled
    rw [Bool.eq_false_iff]
    exact fun sectional => neither (.inr ⟨directive, spelled, sectional⟩)
  have sources (settings : Settings) : resolveSource settings (before ++ statement :: after) =
      resolveSource settings (before ++ statement.unlabelled :: after) := by
    unfold resolveSource
    congr 1
    funext _
    apply resolveFrom_append
    intro address done
    apply resolveFrom_unlabelled
    · exact acts
    · exact framed
  have lengths : (before ++ statement :: after).length =
      (before ++ statement.unlabelled :: after).length := by
    rw [List.length_append, List.length_append, List.length_cons, List.length_cons]
  unfold passes pass
  simp only [sources, lengths]

/-- A label that its line places is known in the end. Any other label of a line that is carried out
changes nothing in what comes of the source, unless the line is an assignment or begins a macro. -/
theorem resolve_labels {limits : Limits} {patience : Option Nat} {source : Bytes}
    {lines : List Line} {before after : List Statement} {statement : Statement} {label : Label}
    (resolved : (resolve limits patience source).result = .ok lines)
    (split : statements source = before ++ statement :: after) (acts : Acts before statement)
    (labelled : statement.label = some label)
    (noAssignment : ∀ spelling, statement.directive? ≠ some (.assign spelling))
    (noMacro : statement.directive? ≠ some .beginMacro) :
    (Places before statement → label.name ∈ (resolve limits patience source).symbols) ∧
    (¬Places before statement → resolve limits patience source =
      .ofResult ((passes limits patience (before ++ statement.unlabelled :: after)).run .initial)) := by
  constructor
  · intro places
    obtain ⟨first, t, s', one, two, outcome⟩ := resolve_ok resolved
    have second := pass_passes two
    rw [split] at second
    rw [outcome]
    exact second.mem_label labelled noAssignment noMacro places
  · intro unplaced
    rw [resolve, split, passes_unlabelled acts unplaced]

/-- A label on an invocation whose macro comes later, among labels on lines that end a macro or a
block. -/
def lateMacro : Bytes :=
  Bytes.join ['\n'.toUInt8]
    (["here m 1", "m macro", "in dc.b \\1", "x endm", " rept 2", "y endr"].map Bytes.ofString)

theorem resolve_labels_lateMacro :
    let before : List Statement := []
    let statement := Statement.ofLine (Bytes.ofString "here m 1")
    let label : Label := ⟨Bytes.ofString "here", 0⟩
    (∃ lines, (resolve .standard none lateMacro).result = .ok lines) ∧
      Acts before statement ∧ Places before statement ∧ statement.label = some label ∧
      label.name ∈ (resolve .standard none lateMacro).symbols := by
  intro before statement label
  obtain ⟨lines, resolved⟩ := exists_ok
    (show (resolve .standard none lateMacro).result.isOk = true by decide +kernel)
  have labelled : statement.label = some label := by decide +kernel
  have directive : statement.directive? = none := by decide +kernel
  have undirected (d : Directive) : statement.directive? ≠ some d := by
    rw [directive]
    intro impossible
    cases impossible
  have places : Places before statement :=
    ⟨rfl, undirected _, fun d spelled => absurd spelled (undirected d)⟩
  have cut : lateMacro.lines = Bytes.ofString "here m 1" :: lateMacro.lines.tail := by
    decide +kernel
  have split : statements lateMacro =
      before ++ statement :: lateMacro.lines.tail.map Statement.ofLine := by
    rw [statements, cut]
    rfl
  refine ⟨⟨lines, resolved⟩, .inl rfl, places, labelled, ?_⟩
  exact (resolve_labels resolved split (.inl rfl) labelled (fun spelling => undirected _)
    (undirected _)).1 places

/-- The label of a section is lost. -/
theorem resolve_labels_section :
    let source := Bytes.ofString "start section code"
    let statement := Statement.ofLine source
    (resolve .standard none source).result.isOk = true ∧ statements source = [statement] ∧
      Acts [] statement ∧ statement.label = some ⟨Bytes.ofString "start", 0⟩ ∧
      statement.directive? = some .namedSection ∧
      Bytes.ofString "start" ∉ (resolve .standard none source).symbols := by
  refine ⟨by decide +kernel, by decide +kernel, .inl rfl, by decide +kernel, by decide +kernel, ?_⟩
  decide +kernel

end Resolver

end Asm68k
