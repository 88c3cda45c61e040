import Asm68k.Proofs.Bytes
import Asm68k.Proofs.Resolver.Lagging
import Asm68k.Proofs.Resolver.SecondPass

/-!
Constants may be assigned anywhere outside the blocks. Whatever the first pass gets wrong because a
constant is assigned further down, the second one puts right: both arrangements come to what a
single pass over the other statements gives that knows all constants from the beginning.
-/

namespace Asm68k.Resolver

open Resolution

/-! ### Programs with constants -/

def bindings (program : List Statement) : List (Bytes × Int64) :=
  (program.filter (·.assigns)).filterMap (·.binding?)

def constantsOf (program : List Statement) : Symbols := .ofList (bindings program)

instance (pending : Pending) : Decidable (pending = .nothing) :=
  match pending with
  | .nothing => isTrue rfl
  | .macroBody _ _ => isFalse nofun
  | .repeatBody _ _ _ => isFalse nofun

/-- No assignment is collected. -/
def Outside (pending : Pending) : List Statement → Prop
  | [] => True
  | statement :: statements =>
    (statement.assigns = true → pending = .nothing) ∧ Outside (pending.after statement) statements

instance instDecidableOutside :
    (pending : Pending) → (program : List Statement) → Decidable (Outside pending program)
  | _, [] => isTrue trivial
  | pending, statement :: statements =>
    have := instDecidableOutside (pending.after statement) statements
    inferInstanceAs (Decidable (_ ∧ _))

/-- Constants are assigned once and outside the blocks. The other statements are tame. -/
structure Movable (program : List Statement) : Prop where
  outside : Outside .nothing program
  constant : ∀ statement ∈ program, statement.assigns = true → statement.binding?.isSome = true
  distinct : ((bindings program).map Prod.fst).Nodup
  tame : ∀ statement ∈ program, statement.assigns = false → Tame (constantsOf program) statement

/-- The assignments stand in other places, and everything else stands in the same order. -/
structure Moved (program program' : List Statement) : Prop where
  others : program'.filter (!·.assigns) = program.filter (!·.assigns)
  assignments : (program'.filter (·.assigns)).Perm (program.filter (·.assigns))
  outside : Outside .nothing program'

instance (program : List Statement) : Decidable (Movable program) :=
  decidable_of_iff
    (Outside .nothing program ∧
      (∀ statement ∈ program, statement.assigns = true → statement.binding?.isSome = true) ∧
      ((bindings program).map Prod.fst).Nodup ∧
      ∀ statement ∈ program, statement.assigns = false → Tame (constantsOf program) statement)
    ⟨fun ⟨outside, constant, distinct, tame⟩ => ⟨outside, constant, distinct, tame⟩,
      fun h => ⟨h.outside, h.constant, h.distinct, h.tame⟩⟩

instance (program program' : List Statement) : Decidable (Moved program program') :=
  decidable_of_iff
    (program'.filter (!·.assigns) = program.filter (!·.assigns) ∧
      (program'.filter (·.assigns)).Perm (program.filter (·.assigns)) ∧ Outside .nothing program')
    ⟨fun ⟨others, assignments, outside⟩ => ⟨others, assignments, outside⟩,
      fun h => ⟨h.others, h.assignments, h.outside⟩⟩

/-- The lines of all statements but the assignments. -/
def otherLines (program : List Statement) (lines : List Line) : List Line :=
  ((program.zip lines).filter (!·.1.assigns)).map Prod.snd

section

variable {program program' : List Statement}

theorem getElem?_constantsOf (distinct : ((bindings program).map Prod.fst).Nodup) {name : Bytes}
    {value : Int64} :
    (constantsOf program)[name]? = some value ↔ (name, value) ∈ bindings program := by
  have apart : (bindings program).Pairwise fun a b => ¬compare a.1 b.1 = .eq := by
    refine (List.pairwise_map.mp distinct).imp fun different same => ?_
    exact different (by simpa using same)
  have found {v : Int64} (member : (name, v) ∈ bindings program) :
      (constantsOf program)[name]? = some v :=
    Std.ExtTreeMap.getElem?_ofList_of_mem (by simp) apart member
  refine ⟨fun bound => ?_, found⟩
  by_cases named : name ∈ (bindings program).map Prod.fst
  · obtain ⟨⟨_, v⟩, member, rfl⟩ := List.mem_map.mp named
    rw [found member] at bound
    cases bound
    exact member
  · have absent : (constantsOf program)[name]? = none :=
      Std.ExtTreeMap.getElem?_ofList_of_contains_eq_false (by simpa using named)
    rw [absent] at bound
    cases bound

theorem Moved.constantsOf_eq (moved : Moved program program') (movable : Movable program) :
    constantsOf program' = constantsOf program := by
  have perm : (bindings program').Perm (bindings program) := moved.assignments.filterMap _
  have distinct : ((bindings program').map Prod.fst).Nodup :=
    (perm.map Prod.fst).nodup_iff.mpr movable.distinct
  apply Std.ExtTreeMap.ext_getElem?
  intro name
  apply Option.ext
  intro value
  rw [getElem?_constantsOf distinct, getElem?_constantsOf movable.distinct, perm.mem_iff]

theorem Moved.movable (moved : Moved program program') (movable : Movable program) :
    Movable program' where
  outside := moved.outside
  constant statement member assigns := by
    have among := moved.assignments.mem_iff.mp (List.mem_filter.mpr ⟨member, assigns⟩)
    exact movable.constant statement (List.mem_filter.mp among).1 assigns
  distinct := ((moved.assignments.filterMap _).map Prod.fst).nodup_iff.mpr movable.distinct
  tame statement member other := by
    have among : statement ∈ program.filter (!·.assigns) := by
      rw [← moved.others]
      exact List.mem_filter.mpr ⟨member, by simp [other]⟩
    rw [moved.constantsOf_eq movable]
    exact movable.tame statement (List.mem_filter.mp among).1 other

theorem Movable.binds (movable : Movable program) {statement : Statement}
    (member : statement ∈ program) (assigns : statement.assigns = true) :
    ∃ name value, Binds (constantsOf program) statement name value := by
  obtain ⟨⟨name, value⟩, binding⟩ :=
    Option.isSome_iff_exists.mp (movable.constant statement member assigns)
  refine ⟨name, value, assigns, binding, (getElem?_constantsOf movable.distinct).mpr ?_⟩
  exact List.mem_filterMap.mpr ⟨statement, List.mem_filter.mpr ⟨member, assigns⟩, binding⟩

theorem Movable.exists_binds (movable : Movable program) {name : Bytes}
    (member : name ∈ constantsOf program) :
    ∃ statement ∈ program, ∃ value, Binds (constantsOf program) statement name value := by
  obtain ⟨value, entry⟩ :=
    Option.isSome_iff_exists.mp (Std.ExtTreeMap.mem_iff_isSome_getElem?.mp member)
  obtain ⟨statement, among, binding⟩ :=
    List.mem_filterMap.mp ((getElem?_constantsOf movable.distinct).mp entry)
  obtain ⟨within, assigns⟩ := List.mem_filter.mp among
  exact ⟨statement, within, value, assigns, binding, entry⟩

theorem woven_others {constants : Symbols} {pending : Pending} (outside : Outside pending program)
    (binds : ∀ statement ∈ program, statement.assigns = true →
      ∃ name value, Binds constants statement name value)
    (tame : ∀ statement ∈ program, statement.assigns = false → Tame constants statement) :
    Woven constants pending program (program.filter (!·.assigns)) := by
  induction program generalizing pending with
  | nil => exact .nil pending
  | cons statement program ih =>
    obtain ⟨idle, outside⟩ := outside
    obtain ⟨bindsHere, binds⟩ := List.forall_mem_cons.mp binds
    obtain ⟨tameHere, tame⟩ := List.forall_mem_cons.mp tame
    cases assigns : statement.assigns with
    | true =>
      obtain ⟨name, value, here⟩ := bindsHere assigns
      obtain ⟨label, spelling, named, directive⟩ := assigns_eq_true assigns
      have after : Pending.nothing.after statement = .nothing := by
        simp only [Pending.after, begun, directive]
      obtain rfl := idle assigns
      rw [after] at outside
      rw [List.filter_cons_of_neg (by simp [assigns])]
      exact .left here (ih outside binds tame)
    | false =>
      rw [List.filter_cons_of_pos (by simp [assigns])]
      exact .both (tameHere assigns) (ih outside binds tame)

theorem Movable.woven (movable : Movable program) :
    Woven (constantsOf program) .nothing program (program.filter (!·.assigns)) :=
  woven_others movable.outside (fun _ => movable.binds) movable.tame

end

/-! ### Learning the constants -/

section

variable {constants : Symbols} {settings settings' : Settings} {expand expand' : Expander}
  {log : Logger} {pending : Pending} {xs ys : List Statement} {address : Int64} {last : Frame}
  {lines : List Line} {s t s' : State}

/-- After a run that knew no constant wrongly, all that are assigned in it are known. -/
theorem Runs.learns (below : HoldsConstants constants expand log)
    (woven : Woven constants pending xs ys) (collected : pending.Tame constants)
    (noMacros : s.macros = ∅) (part : Part constants s.symbols)
    (h : Runs settings expand ⟨address, pending⟩ xs s lines last s') :
    s'.macros = ∅ ∧ last.pending.Tame constants ∧ Part constants s'.symbols ∧
      (∀ name ∈ s.symbols, name ∈ s'.symbols) ∧
      ∀ statement ∈ xs, ∀ name value, Binds constants statement name value →
        name ∈ s'.symbols := by
  induction woven generalizing address s lines with
  | nil pending =>
    cases h
    exact ⟨noMacros, collected, part, fun _ => id, by simp⟩
  | @both pending statement xs ys tame rest ih =>
    cases h with
    | @cons _ _ _ _ _ u _ line _ _ stepped run =>
      obtain ⟨rule, rfl⟩ := step_stepped stepped
      have steady := (rule.steady below tame collected noMacros).1
      have kept : Part constants u.symbols := by
        intro name member
        rw [steady.constants name member]
        exact part name member
      obtain ⟨noMacros', collected', part', domain, bound⟩ :=
        ih (collected.after tame) (steady.macros.trans noMacros) kept run
      refine ⟨noMacros', collected', part', fun name known => ?_,
        List.forall_mem_cons.mpr ⟨fun name value binds => ?_, bound⟩⟩
      · exact domain name (steady.domain name known)
      · have assigns := binds.assigns
        rw [tame.noAssignment] at assigns
        cases assigns
  | @left statement name value xs ys binds rest ih =>
    obtain ⟨lines, rfl, run⟩ := binds.runs_iff.mp h
    obtain ⟨noMacros', collected', part', domain, bound⟩ :=
      ih (s := s.bound name value) collected noMacros (binds.part part) run
    refine ⟨noMacros', collected', part', fun other known => ?_,
      List.forall_mem_cons.mpr ⟨fun other value' binds' => ?_, bound⟩⟩
    · exact domain other (Std.ExtTreeMap.mem_insert.mpr (.inr known))
    · obtain ⟨rfl, rfl⟩ := Option.some.inj (binds.binding.symm.trans binds'.binding)
      exact domain name (Std.ExtTreeMap.mem_insert.mpr (.inl (by simp)))
  | right binds rest ih => exact ih collected noMacros part h

theorem Passes.learns (woven : Woven constants .nothing xs ys) (noMacros : s.macros = ∅)
    (part : Part constants s.symbols)
    (all : ∀ name ∈ constants, ∃ statement ∈ xs, ∃ value, Binds constants statement name value)
    (h : Passes settings xs s lines s') : s'.macros = ∅ ∧ Knows constants s'.symbols := by
  obtain ⟨last, u, run, rfl⟩ := h
  have below := expandAt_holdsConstants constants settings 1 settings.limits.depth
  obtain ⟨noMacros', collected, part', -, bound⟩ :=
    Runs.learns (s := s.fresh) below woven trivial noMacros part run
  have finished := collected.finished u
  refine ⟨finished.macros.trans noMacros', ?_⟩
  rw [finished.symbols]
  apply part'.knows
  intro name member
  obtain ⟨statement, among, value, binds⟩ := all name member
  exact bound statement among name value binds

/-! ### Rearranging a pass that knows the constants -/

theorem otherLines_cons_other {statement : Statement} (other : statement.assigns = false)
    (line : Line) :
    otherLines (statement :: xs) (line :: lines) = line :: otherLines xs lines := by
  simp [otherLines, other]

theorem otherLines_cons_assigns {statement : Statement} (assigns : statement.assigns = true)
    (line : Line) : otherLines (statement :: xs) (line :: lines) = otherLines xs lines := by
  simp [otherLines, assigns]

/-- Related tables have the same constants and the same macros. -/
structure Likeness.Shares (like : Likeness) (constants : Symbols) : Prop where
  symbols : ∀ {s t}, like.symbols s t → ∀ name ∈ constants, t[name]? = s[name]?
  macros : ∀ {s t}, like.macros s t → s = t

variable {like : Likeness}

theorem Likeness.Shares.covers (shares : like.Shares constants) {happening : Happening}
    (within : happening.Within constants) : like.Covers happening := by
  cases happening with
  | lookup name known => exact fun s t related _ => shares.symbols related name within
  | invocation name known =>
    intro s t related _
    rw [shares.macros related]
  | expansion depth statements => trivial

theorem Likeness.Holds.same_left {s u t : State} (h : like.Holds s t) (same : Same u s) :
    like.Holds u t where
  symbols := same.symbols ▸ h.symbols
  macros := same.macros ▸ h.macros
  bss := same.bss.trans h.bss
  usage := same.usage.trans h.usage

theorem Runs.rearranged {limits limits' : Limits} (settings' : Settings)
    (shares : like.Shares constants) (below : HoldsConstants constants expand log)
    (logged : Logged limits expand log) (carried : Carried like limits' expand log expand') (woven : Woven constants pending xs ys)
    (collected : pending.Tame constants) (noMacros : s.macros = ∅)
    (known : Knows constants s.symbols) (holds : like.Holds s t) (fits : s'.usage.Fits limits')
    (h : Runs settings expand ⟨address, pending⟩ xs s lines last s') :
    ∃ lines' t', Runs settings' expand' ⟨address, pending⟩ ys t lines' last t' ∧
      like.Holds s' t' ∧ otherLines xs lines = otherLines ys lines' := by
  induction woven generalizing address s t lines with
  | nil pending =>
    cases h
    exact ⟨[], t, .nil _ t, holds, rfl⟩
  | @both pending statement xs ys tame rest ih =>
    cases h with
    | @cons _ _ _ _ _ u _ line _ _ stepped run =>
      obtain ⟨rule, rfl⟩ := step_stepped stepped
      obtain ⟨steady, within⟩ := rule.steady below tame collected noMacros
      have fitsHere : u.usage.Fits limits' := (run.spent logged).fits_before fits
      obtain ⟨u', rule', between⟩ := rule.carried settings' logged carried holds
        (fun happening member => shares.covers (within happening member)) fitsHere
      obtain ⟨v, stepped', same⟩ := rule'.carriedOut
      obtain ⟨lines', t', run', after, lines_eq⟩ := ih (collected.after tame)
        (steady.macros.trans noMacros)
        (fun name member => (steady.constants name member).trans (known name member))
        (between.same same) run
      refine ⟨_, t', .cons stepped' run', after, ?_⟩
      rw [otherLines_cons_other tame.noAssignment, otherLines_cons_other tame.noAssignment,
        lines_eq]
  | @left statement name value xs ys binds rest ih =>
    obtain ⟨lines, rfl, run⟩ := binds.runs_iff.mp h
    have same := binds.same known
    rw [otherLines_cons_assigns binds.assigns]
    exact ih collected (same.macros.trans noMacros) (same.symbols ▸ known) (holds.same_left same)
      run
  | @right statement name value xs ys binds rest ih =>
    have known' : Knows constants t.symbols := fun other member =>
      (shares.symbols holds.symbols other member).trans (known other member)
    have same := binds.same known'
    obtain ⟨lines', t', run', after, lines_eq⟩ :=
      ih collected noMacros known (holds.same same) h
    refine ⟨_, t', binds.runs_iff.mpr ⟨lines', rfl, run'⟩, after, ?_⟩
    rw [lines_eq, otherLines_cons_assigns binds.assigns]

theorem Passes.rearranged (h : Passes settings xs s lines s') (shares : like.Shares constants)
    (woven : Woven constants .nothing xs ys) (noMacros : s.macros = ∅)
    (known : Knows constants s.symbols) (symbols : like.symbols s.symbols t.symbols)
    (macros : like.macros s.macros t.macros) (patient : settings.patience = none) :
    ∃ lines' t', Passes settings ys t lines' t' ∧ like.Holds s' t' ∧
      otherLines xs lines = otherLines ys lines' := by
  have fits := h.spent.2
  obtain ⟨last, u, run, rfl⟩ := h
  rw [u.finished_usage] at fits
  have fresh : like.Holds s.fresh t.fresh := ⟨symbols, macros, rfl, rfl⟩
  obtain ⟨lines', u', run', after, lines_eq⟩ := Runs.rearranged settings (s := s.fresh) shares
    (expandAt_holdsConstants constants settings 1 settings.limits.depth)
    (expandAt_logged settings (Nat.zero_add _))
    (expandAt_carried patient (Nat.zero_add _) (Nat.zero_add _)) woven trivial noMacros known fresh
    fits run
  exact ⟨lines', _, ⟨last, u', run', rfl⟩, after.finished _, lines_eq⟩

end

/-! ### One pass that knows all constants -/

/-- The same constants and macros, and the second table laid over the base. -/
def Likeness.sharing (constants base : Symbols) : Likeness :=
  { Likeness.equal with
    symbols s t := (∀ name ∈ constants, t[name]? = s[name]?) ∧ Overlay base s t
    symbols_insert name value h := by
      refine ⟨fun other member => ?_, h.2.insert name value⟩
      rw [Std.ExtTreeMap.getElem?_insert, Std.ExtTreeMap.getElem?_insert, h.1 other member] }

theorem Likeness.sharing_shares (constants base : Symbols) :
    (Likeness.sharing constants base).Shares constants := ⟨fun h => h.1, id⟩

def Likeness.symm (like : Likeness) : Likeness where
  symbols s t := like.symbols t s
  macros s t := like.macros t s
  symbols_insert name value h := like.symbols_insert name value h
  macros_insert name body h := like.macros_insert name body h

theorem Likeness.Shares.symm {like : Likeness} {constants : Symbols}
    (shares : like.Shares constants) : like.symm.Shares constants :=
  ⟨fun h name member => (shares.symbols h name member).symm, fun h => (shares.macros h).symm⟩

def State.knowing (constants : Symbols) : State := { State.initial with symbols := constants }

theorem sharing_of_knows {constants base : Symbols} (known : Knows constants base) :
    (Likeness.sharing constants base).symbols constants base := by
  refine ⟨known, fun name => ?_⟩
  by_cases member : name ∈ constants
  · have here : constants[name]?.isSome = true := Std.ExtTreeMap.mem_iff_isSome_getElem?.mp member
    rw [known name member, Option.or_of_isSome here]
  · rw [Std.ExtTreeMap.getElem?_eq_none member, Option.none_or]

theorem lag_initial (constants : Symbols) (number count : Nat) :
    Lag constants (State.knowing constants).fresh (State.initial.announced number count).fresh where
  noMacros := rfl
  noMacros' := rfl
  known _ _ := rfl
  part _ _ := .inl Std.ExtTreeMap.getElem?_empty
  domain _ member := absurd member Std.ExtTreeMap.not_mem_empty
  depth := Nat.le_refl _
  lines := Nat.le_refl _

theorem Passes.unique {settings : Settings} {statements : List Statement} {lines lines' : List Line}
    {s s' t' : State} (h : Passes settings statements s lines s')
    (h' : Passes settings statements s lines' t') : lines = lines' ∧ s' = t' := by
  obtain ⟨last, u, run, rfl⟩ := h
  obtain ⟨last', u', run', rfl⟩ := h'
  obtain ⟨rfl, rfl, rfl⟩ := run.unique run'
  exact ⟨rfl, rfl⟩

section

variable {limits : Limits} {source : Bytes} {lines : List Line}

theorem Movable.learns (movable : Movable (statements source)) {t : State}
    (one : pass limits none 1 false (statements source) .initial = .ok lines t) :
    t.macros = ∅ ∧ Knows (constantsOf (statements source)) t.symbols :=
  Passes.learns movable.woven rfl (fun _ _ => .inl Std.ExtTreeMap.getElem?_empty)
    (fun _ => movable.exists_binds) (pass_passes one)

/-- What is resolved is what the one pass gives. -/
theorem Movable.canonical (movable : Movable (statements source))
    (h : (resolve limits none source).result = .ok lines) :
    ∃ lines' s', Passes ⟨limits, none, true⟩ ((statements source).filter (!·.assigns))
        (.knowing (constantsOf (statements source))) lines' s' ∧
      otherLines (statements source) lines =
        otherLines ((statements source).filter (!·.assigns)) lines' ∧
      (resolve limits none source).symbols = s'.symbols := by
  obtain ⟨first, t, s', one, two, outcome⟩ := resolve_ok h
  obtain ⟨noMacros, known⟩ := movable.learns one
  obtain ⟨lines', u, alone, holds, lines_eq⟩ := (pass_passes two).rearranged
    (t := .knowing (constantsOf (statements source)))
    (Likeness.sharing_shares _ t.symbols).symm movable.woven noMacros known
    (sharing_of_knows known) noMacros.symm rfl
  obtain ⟨first', t', again, lag⟩ := alone.lags movable.woven.symm
    (lag_initial _ 1 (statements source).length) ⟨limits, none, false⟩ rfl rfl
  obtain ⟨-, rfl⟩ := (pass_passes one).unique again
  refine ⟨lines', u, alone, lines_eq, ?_⟩
  rw [outcome]
  exact holds.symbols.2.eq_of_domain lag.domain

theorem Movable.resolved (movable : Movable (statements source)) {s' : State}
    (alone : Passes ⟨limits, none, true⟩ ((statements source).filter (!·.assigns))
      (.knowing (constantsOf (statements source))) lines s') :
    (resolve limits none source).result.isOk = true := by
  obtain ⟨first, t, again, -⟩ := alone.lags movable.woven.symm
    (lag_initial _ 1 (statements source).length) ⟨limits, none, false⟩ rfl rfl
  have one := again.pass_ok
  obtain ⟨noMacros, known⟩ := movable.learns one
  obtain ⟨lines', u, twice, -, -⟩ := alone.rearranged
    (t := t.announced 2 (statements source).length) (Likeness.sharing_shares _ t.symbols)
    movable.woven.symm rfl (fun _ _ => rfl) (sharing_of_knows known) noMacros.symm rfl
  rw [resolve_of_passes one twice.pass_ok]
  rfl

/-- Moving the assignments changes neither whether a source is resolved nor its symbols and its
other lines. -/
theorem resolve_moved (limits : Limits) {source source' : Bytes}
    (movable : Movable (statements source))
    (moved : Moved (statements source) (statements source')) :
    (resolve limits none source').result.isOk = (resolve limits none source).result.isOk ∧
      ∀ lines lines', (resolve limits none source).result = .ok lines →
        (resolve limits none source').result = .ok lines' →
        (resolve limits none source').symbols = (resolve limits none source).symbols ∧
          otherLines (statements source') lines' = otherLines (statements source) lines := by
  have movable' := moved.movable movable
  refine ⟨Bool.eq_iff_iff.mpr ⟨fun ok => ?_, fun ok => ?_⟩, fun lines lines' h h' => ?_⟩
  · obtain ⟨lines, h⟩ := exists_ok ok
    obtain ⟨_, _, alone, -⟩ := movable'.canonical h
    rw [moved.others, moved.constantsOf_eq movable] at alone
    exact movable.resolved alone
  · obtain ⟨lines, h⟩ := exists_ok ok
    obtain ⟨_, _, alone, -⟩ := movable.canonical h
    rw [← moved.others, ← moved.constantsOf_eq movable] at alone
    exact movable'.resolved alone
  · obtain ⟨_, _, alone, lines_eq, symbols⟩ := movable.canonical h
    obtain ⟨_, _, alone', lines_eq', symbols'⟩ := movable'.canonical h'
    rw [moved.others, moved.constantsOf_eq movable] at alone'
    obtain ⟨rfl, rfl⟩ := alone.unique alone'
    rw [lines_eq', moved.others, ← lines_eq]
    exact ⟨symbols'.trans symbols.symm, rfl⟩

end

/-- Blocks whose repetitions and sizes are assigned after them. -/
def constantsLast : Bytes :=
  Bytes.ofLines ([" rept n", "in ds.b m", " rept k", " dc.b 1", " endr", " endr", "n equ 2",
    "m = 3", "out ds.b n*m", "k set 2"].map Bytes.ofString)

def constantsFirst : Bytes :=
  Bytes.ofLines (["k set 2", "m = 3", " rept n", "in ds.b m", " rept k", " dc.b 1", " endr",
    " endr", "out ds.b n*m", "n equ 2"].map Bytes.ofString)

theorem resolve_moved_constantsLast :
    Movable (statements constantsLast) ∧
      Moved (statements constantsLast) (statements constantsFirst) ∧
      (resolve .standard none constantsLast).result.toOption.map (·.map Line.bytes) =
        some [0, 0, 0, 0, 0, 10, 0, 0, 6, 0] ∧
      ∃ lines lines', (resolve .standard none constantsLast).result = .ok lines ∧
        (resolve .standard none constantsFirst).result = .ok lines' ∧
        (resolve .standard none constantsFirst).symbols =
          (resolve .standard none constantsLast).symbols ∧
        otherLines (statements constantsFirst) lines' =
          otherLines (statements constantsLast) lines := by
  obtain ⟨movable, moved, resolved, bytes⟩ : Movable (statements constantsLast) ∧
      Moved (statements constantsLast) (statements constantsFirst) ∧
      (resolve .standard none constantsLast).result.isOk = true ∧
      (resolve .standard none constantsLast).result.toOption.map (·.map Line.bytes) =
        some [0, 0, 0, 0, 0, 10, 0, 0, 6, 0] := by
    decide +kernel
  have same := resolve_moved .standard movable moved
  obtain ⟨lines, h⟩ := exists_ok resolved
  obtain ⟨lines', h'⟩ := exists_ok (same.1.trans resolved)
  exact ⟨movable, moved, bytes, lines, lines', h, h', same.2 lines lines' h h'⟩

end Asm68k.Resolver
