import Asm68k.Proofs.Bytes
import Asm68k.Proofs.Listing.Times
import Asm68k.Proofs.Resolver.Run
import Asm68k.Proofs.Timing.Table

/-!
Times in a resolved source. A leaf has the time of the statement that its text spells, and the
times of all other lines are put together from those of the leaves below them.
-/

namespace Asm68k.Resolver

open Line

/-- A line without bytes and time, or with those of the statement that its text spells. -/
def OwnTimes (info : LineInfo) : Prop :=
  info.bytes = 0 ∧ info.times = none ∨
    ∃ symbols, info.times = (Statement.ofLine info.text).times? symbols

/-- What an expander returns is put together from leaves. -/
def Builds (expand : Expander) : Prop :=
  ∀ ⦃address statements s lines s'⦄, (∀ statement ∈ statements, Spelled statement) →
    expand address statements s = .ok lines s' → Built OwnTimes lines

section

variable {settings : Settings} {expand : Expander} {s s' : State}

theorem built_blank (text : Bytes) : Built OwnTimes [.blank text] :=
  .plain (.inl ⟨rfl, rfl⟩) .nil

theorem built_plainLine {statement : Statement} (spelled : Spelled statement) (s : State) :
    Built OwnTimes [plainLine s statement] := by
  refine .plain (.inr ⟨(s.symbols[·]?), ?_⟩) .nil
  exact congrArg (Statement.times? (s.symbols[·]?)) spelled

theorem stepped_built (builds : Builds expand) {frame : Frame} {statement : Statement}
    {line : Line} (spelled : Spelled statement) (collected : frame.pending.Spelled)
    (h : Stepped settings expand frame statement s line s') : Built OwnTimes [line] := by
  cases h with
  | collected | macroEnded | blank | macroBegun | switched | assigned | ignored =>
    exact built_blank statement.text
  | plain => exact built_plainLine spelled _
  | invoked pending here invokes known run =>
    refine .expansion _ _ (builds ?_ run) .nil
    intro b member
    obtain ⟨_, _, rfl⟩ := List.mem_map.mp member
    exact spelled_ofLine _
  | repeatEnded pending ends run =>
    rw [pending] at collected
    obtain ⟨later, rfl, inner⟩ := repeatFrom_copies (P := fun _ lines _ => Built OwnTimes lines)
      (fun _ => .nil) .append (builds collected) run
    rw [List.append_nil, List.reverse_reverse]
    exact .expansion _ _ inner .nil

theorem Runs.built (builds : Builds expand) {frame last : Frame} {statements : List Statement}
    {lines : List Line} (spelled : ∀ statement ∈ statements, Spelled statement)
    (collected : frame.pending.Spelled)
    (h : Runs settings expand frame statements s lines last s') : Built OwnTimes lines := by
  induction h with
  | nil => exact .nil
  | cons stepped rest ih =>
    obtain ⟨first, later⟩ := List.forall_mem_cons.mp spelled
    obtain ⟨rule, rfl⟩ := step_stepped stepped
    rw [← List.singleton_append]
    exact (stepped_built builds first collected rule).append (ih later (collected.after first))

theorem expandAt_builds (settings : Settings) (levels : Nat) :
    Builds (expandAt settings levels) := by
  induction levels with
  | zero =>
    intro address statements s lines s' _ h
    obtain ⟨inner, _, _, levels, _⟩ := expandAt_runs h
    cases levels
  | succ levels ih =>
    intro address statements s lines s' spelled h
    obtain ⟨_, last, t, ⟨rfl⟩, run, -⟩ := expandAt_runs h
    refine run.built ih spelled ?_
    trivial

theorem Passes.built {statements : List Statement} {lines : List Line}
    (spelled : ∀ statement ∈ statements, Spelled statement)
    (h : Passes settings statements s lines s') : Built OwnTimes lines := by
  obtain ⟨last, t, run, -⟩ := h
  refine run.built (expandAt_builds settings settings.limits.depth) spelled ?_
  trivial

end

theorem resolve_built {limits : Limits} {patience : Option Nat} {source : Bytes}
    {lines : List Line} (h : (resolve limits patience source).result = .ok lines) :
    Built OwnTimes lines := by
  obtain ⟨first, t, s', -, two, -⟩ := resolve_ok h
  refine (pass_passes two).built ?_
  intro statement member
  obtain ⟨text, -, rfl⟩ := List.mem_map.mp member
  exact spelled_ofLine text

theorem OwnTimes.values_ne_nil {info : LineInfo} (own : OwnTimes info) {times : Times}
    (timed : info.times = some times) : times.values ≠ [] := by
  rcases own with ⟨-, untimed⟩ | ⟨symbols, same⟩
  · rw [timed] at untimed
    cases untimed
  · exact Statement.values_ne_nil (same.symm.trans timed)

/-- No time is lost or changed on the way up. The totals of a resolved source are the sums of the
least and of the greatest times of its leaves, and the line of an expansion has those of the leaves
below it: no time where no leaf has one, one time where the sums agree, and else both. -/
theorem resolve_timed {limits : Limits} {patience : Option Nat} {source : Bytes}
    {lines : List Line} (h : (resolve limits patience source).result = .ok lines)
    (moderate : ∀ leaf ∈ leaves lines, ∀ times, leaf.times = some times →
      ∀ value ∈ times.values, value.Moderate)
    (few : (leaves lines).length < 2 ^ 31) :
    (∀ c, (Totals.ofLines lines).least.count c = span .least c (leaves lines) ∧
      (Totals.ofLines lines).greatest.count c = span .greatest c (leaves lines)) ∧
    ((Totals.ofLines lines).isRange = true ↔
      ∃ c, span .least c (leaves lines) ≠ span .greatest c (leaves lines)) ∧
    ∀ info body, Occurs (.expanded info body) lines →
      (info.times = none ↔ ∀ leaf ∈ leaves body, leaf.times = none) ∧
      ∀ times, info.times = some times → ∃ least greatest : Timing,
        (∀ c, least.count c = span .least c (leaves body) ∧
          greatest.count c = span .greatest c (leaves body)) ∧
        times.values = if least = greatest then [least] else [least, greatest] := by
  have built := resolve_built h
  have sensible : ∀ info ∈ leaves lines, info.Moderate := fun info leaf times timed =>
    ⟨(built.leaf_of_mem info leaf).values_ne_nil timed, moderate info leaf times timed⟩
  have totals := count_ofLines sensible few (built.extreme_eq sensible few)
  refine ⟨fun c => ⟨totals .least c, totals .greatest c⟩, ?_, ?_⟩
  · have differ : (Totals.ofLines lines).isRange = true ↔
        (Totals.ofLines lines).least ≠ (Totals.ofLines lines).greatest := bne_iff_ne
    rw [differ]
    simp only [← totals]
    constructor
    · intro different
      refine Classical.byContradiction fun same => different (Timing.eq_of_count fun c => ?_)
      exact Classical.byContradiction fun apart => same ⟨c, apart⟩
    · rintro ⟨c, apart⟩ same
      exact apart (congrArg (Timing.count · c) same)
  · intro info body occurs
    obtain ⟨inner, text, bss, same⟩ := built.of_occurs occurs
    have below := occurs.leaves_sublist
    have sensible' : ∀ info ∈ leaves body, info.Moderate := fun info leaf =>
      sensible info (below.subset leaf)
    have few' : (leaves body).length < 2 ^ 31 := Nat.lt_of_le_of_lt below.length_le few
    have rolled := inner.extreme_eq sensible' few'
    have times_eq : info.times = (ofExpansion text bss body).times := congrArg Line.times same
    rw [times_eq]
    refine ⟨times_ofExpansion_eq_none_iff sensible' few' rolled text bss, ?_⟩
    intro times timed
    obtain ⟨least, greatest, bounds, values⟩ := values_ofExpansion sensible' few' rolled timed
    exact ⟨least, greatest, fun c => ⟨bounds .least c, bounds .greatest c⟩, values⟩

/-! ### Traps in a block -/

/-- A block that invokes a macro for an instruction with two outcomes, and the instruction. -/
def trapsInBlock : Bytes :=
  Bytes.ofLines
    (["m macro", " trap\\1", " endm", " rept 2", " m v", " endr", " trapv"].map Bytes.ofString)

/-- The times of the leaves of `trapsInBlock`, by their texts. -/
def trapTimes (text : Bytes) : List Timing :=
  if text = Bytes.ofString " trapv" then [⟨4, 1, 0⟩, ⟨34, 5, 3⟩] else []

theorem times?_trapv (symbols : Bytes → Option Int64) :
    ∃ times, (Statement.ofLine (Bytes.ofString " trapv")).times? symbols = some times ∧
      times.values = [⟨4, 1, 0⟩, ⟨34, 5, 3⟩] := by
  obtain ⟨opcode, operands⟩ : (Statement.ofLine (Bytes.ofString " trapv")).opcode =
      some ⟨.instruction .trapv, 1, none⟩ ∧
      (Statement.ofLine (Bytes.ofString " trapv")).operands = [] := by
    decide +kernel
  have found : Timing.lookup? (Statement.keyOf .trapv none []) =
      some ⟨[⟨4, 1, 0⟩, ⟨34, 5, 3⟩], none, none⟩ := by
    rw [Timing.lookup?_eq]
    decide +kernel
  rw [← operands] at found
  exact ⟨_, Statement.times?_of_lookup? opcode found symbols, rfl⟩

theorem OwnTimes.values_trap {info : LineInfo} (own : OwnTimes info)
    (known : if info.text = Bytes.ofString " trapv" then info.bytes ≠ 0
      else (Statement.ofLine info.text).key? = none) :
    (info.times.elim [] Times.values) = trapTimes info.text := by
  unfold trapTimes
  split at known
  · rename_i spelled
    rcases own with ⟨empty, -⟩ | ⟨symbols, same⟩
    · exact (known empty).elim
    · obtain ⟨times, timed, values⟩ := times?_trapv symbols
      rw [same, spelled, timed, if_pos rfl]
      exact values
  · rename_i other
    rw [if_neg other]
    rcases own with ⟨-, untimed⟩ | ⟨symbols, same⟩
    · rw [untimed]
      rfl
    · rw [same, Statement.times?]
      unfold Statement.key? at known
      split at known
      · cases known
      · rfl

theorem resolve_timed_trapsInBlock :
    ∃ lines, (resolve .standard none trapsInBlock).result = .ok lines ∧
      (Totals.ofLines lines).least = ⟨12, 3, 0⟩ ∧ (Totals.ofLines lines).greatest = ⟨102, 15, 9⟩ ∧
      (Totals.ofLines lines).isRange = true ∧
      ∀ info body, Occurs (.expanded info body) lines →
        (info.times = none ↔ ∀ leaf ∈ leaves body, leaf.times = none) := by
  obtain ⟨resolved, texts, known⟩ :
      (resolve .standard none trapsInBlock).result.isOk = true ∧
      ((resolve .standard none trapsInBlock).result.toOption.elim [] leaves).map (·.text) =
        ["m macro", " trap\\1", " endm", " rept 2", " m v", " trapv", " trapv", " trapv"].map
          Bytes.ofString ∧
      ∀ info ∈ (resolve .standard none trapsInBlock).result.toOption.elim [] leaves,
        if info.text = Bytes.ofString " trapv" then info.bytes ≠ 0
        else (Statement.ofLine info.text).key? = none := by
    decide +kernel
  obtain ⟨lines, h⟩ := exists_ok resolved
  rw [h] at texts known
  simp only [Except.toOption, Option.elim_some] at texts known
  have values : ∀ info ∈ leaves lines, info.times.elim [] Times.values = trapTimes info.text :=
    fun info leaf => ((resolve_built h).leaf_of_mem info leaf).values_trap (known info leaf)
  have moderate : ∀ leaf ∈ leaves lines, ∀ times, leaf.times = some times →
      ∀ value ∈ times.values, value.Moderate := by
    intro leaf member times timed value listed
    have same := values leaf member
    rw [timed, Option.elim_some] at same
    rw [same, trapTimes] at listed
    split at listed
    · simp only [List.mem_cons, List.not_mem_nil, or_false] at listed
      rcases listed with rfl | rfl <;> exact ⟨by decide, fun c => by cases c <;> decide,
        fun c => by cases c <;> decide⟩
    · cases listed
  have few : (leaves lines).length < 2 ^ 31 := by
    rw [← List.length_map (·.text), texts]
    decide
  have sums : ∀ x c, span x c (leaves lines) =
      (((leaves lines).map (·.text)).map fun text =>
        x.among ((trapTimes text).map (·.count c))).sum := by
    intro x c
    rw [span, List.map_map]
    refine congrArg List.sum (List.map_congr_left fun info leaf => ?_)
    rw [Function.comp, ← values info leaf, LineInfo.extreme_eq_among]
  obtain ⟨totals, range, expansions⟩ := resolve_timed h moderate few
  refine ⟨lines, h, ?_, ?_, ?_, fun info body occurs => (expansions info body occurs).1⟩
  · refine Timing.eq_of_count fun c => ?_
    rw [(totals c).1, sums, texts]
    cases c <;> decide +kernel
  · refine Timing.eq_of_count fun c => ?_
    rw [(totals c).2, sums, texts]
    cases c <;> decide +kernel
  · refine range.mpr ⟨.clock, ?_⟩
    rw [sums, sums, texts]
    decide +kernel

end Asm68k.Resolver
