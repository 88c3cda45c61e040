import Mathlib.Algebra.Ring.Int.Defs
import Mathlib.Algebra.Ring.Nat
import Asm68k.Proofs.Listing.Leaves

/-!
Times of expansions. The line of an expansion keeps one or two times for all the leaves below it,
and the totals read these as if they were outcomes of one instruction. As long as the leaves are
few and their times small, the least and the greatest times found this way are the sums over the
leaves (`count_ofLines`, `Built.extreme_eq`).
-/

namespace Asm68k

namespace Timing

inductive Component where
  | clock
  | read
  | write

def count (t : Timing) : Component → Int
  | .clock => t.clock.toInt
  | .read => t.read.toInt
  | .write => t.write.toInt

/-- A time that an instruction may take: it takes some, and not so much that sums overflow. -/
structure Moderate (t : Timing) : Prop where
  positive : 1 ≤ t.count .clock
  nonneg : ∀ c, 0 ≤ t.count c
  small : ∀ c, t.count c < 2 ^ 31

theorem eq_of_count {t u : Timing} (h : ∀ c, t.count c = u.count c) : t = u := by
  obtain ⟨clock, read, write⟩ := t
  obtain ⟨clock', read', write'⟩ := u
  have sameClock := Int64.toInt_inj.mp (h .clock)
  have sameRead := Int64.toInt_inj.mp (h .read)
  have sameWrite := Int64.toInt_inj.mp (h .write)
  simp_all

@[simp] theorem count_zero (c : Component) : zero.count c = 0 := by cases c <;> rfl

theorem toInt_add_of_fits {a b : Int64} (nonneg : 0 ≤ a.toInt + b.toInt)
    (fits : a.toInt + b.toInt < 2 ^ 63) : (a + b).toInt = a.toInt + b.toInt := by
  rw [Int64.toInt_add]
  exact Int.bmod_eq_of_le (by omega) (by omega)

theorem count_add {t u : Timing} {c : Component} (nonneg : 0 ≤ t.count c + u.count c)
    (fits : t.count c + u.count c < 2 ^ 63) : (t + u).count c = t.count c + u.count c := by
  cases c <;> exact toInt_add_of_fits nonneg fits

theorem toInt_min (a b : Int64) : (min a b).toInt = min a.toInt b.toInt := by
  simp only [min, Int64.le_iff_toInt_le]
  split <;> rfl

theorem toInt_max (a b : Int64) : (max a b).toInt = max a.toInt b.toInt := by
  simp only [max, Int64.le_iff_toInt_le]
  split <;> rfl

theorem count_inf (t u : Timing) (c : Component) :
    (t.inf u).count c = min (t.count c) (u.count c) := by
  cases c <;> exact toInt_min _ _

theorem count_sup (t u : Timing) (c : Component) :
    (t.sup u).count c = max (t.count c) (u.count c) := by
  cases c <;> exact toInt_max _ _

theorem count_foldl_inf (value : Timing) (values : List Timing) (c : Component) :
    (values.foldl inf value).count c = (values.map (·.count c)).foldl min (value.count c) := by
  induction values generalizing value with
  | nil => rfl
  | cons next values ih => rw [List.foldl_cons, ih, count_inf, List.map_cons, List.foldl_cons]

theorem count_foldl_sup (value : Timing) (values : List Timing) (c : Component) :
    (values.foldl sup value).count c = (values.map (·.count c)).foldl max (value.count c) := by
  induction values generalizing value with
  | nil => rfl
  | cons next values ih => rw [List.foldl_cons, ih, count_sup, List.map_cons, List.foldl_cons]

end Timing

open Timing (Component)

/-! ### Extremes -/

/-- The ends of the range of times that some outcomes take. -/
inductive Extreme where
  | least
  | greatest

namespace Extreme

def of (x : Extreme) (bounds : Timing × Timing) : Timing :=
  match x with
  | .least => bounds.1
  | .greatest => bounds.2

/-- The smallest or the largest of some numbers, and zero if there are none. -/
def among (x : Extreme) (values : List Int) : Int :=
  match x with
  | .least => values.min?.getD 0
  | .greatest => values.max?.getD 0

theorem among_mem (x : Extreme) {values : List Int} (filled : values ≠ []) :
    x.among values ∈ values := by
  cases x with
  | least =>
    cases found : values.min? with
    | none => exact (filled (List.min?_eq_none_iff.mp found)).elim
    | some value => simpa [among, found] using List.min?_mem found
  | greatest =>
    cases found : values.max? with
    | none => exact (filled (List.max?_eq_none_iff.mp found)).elim
    | some value => simpa [among, found] using List.max?_mem found

theorem among_bounds {values : List Int} {value : Int} (member : value ∈ values) :
    Extreme.least.among values ≤ value ∧ value ≤ Extreme.greatest.among values := by
  cases values with
  | nil => cases member
  | cons first others =>
    have least : (first :: others).min? = some (others.foldl min first) := List.min?_cons'
    have greatest : (first :: others).max? = some (others.foldl max first) := List.max?_cons'
    have low := (List.min?_eq_some_iff.mp least).2 value member
    have high := (List.max?_eq_some_iff.mp greatest).2 value member
    simpa only [among, least, greatest, Option.getD_some] using ⟨low, high⟩

theorem least_le_greatest (values : List Int) :
    Extreme.least.among values ≤ Extreme.greatest.among values := by
  cases values with
  | nil => decide
  | cons value values =>
    obtain ⟨low, high⟩ := among_bounds (List.mem_cons_self (a := value) (l := values))
    omega

end Extreme

/-- A component of the least or the greatest time of a line, which is zero without a time. -/
def LineInfo.extreme (info : LineInfo) (x : Extreme) (c : Component) : Int :=
  match info.times with
  | none => 0
  | some times => x.among (times.values.map (·.count c))

/-- The time of a line, if it has one, is one or more times that instructions may take. -/
def LineInfo.Moderate (info : LineInfo) : Prop :=
  ∀ times, info.times = some times → times.values ≠ [] ∧ ∀ value ∈ times.values, value.Moderate

namespace LineInfo

variable {info : LineInfo}

theorem extreme_of_untimed (untimed : info.times = none) (x : Extreme) (c : Component) :
    info.extreme x c = 0 := by
  rw [extreme, untimed]

theorem extreme_eq_among (info : LineInfo) (x : Extreme) (c : Component) :
    info.extreme x c = x.among ((info.times.elim [] Times.values).map (·.count c)) := by
  unfold extreme
  cases info.times with
  | none => cases x <;> rfl
  | some times => rfl

theorem Moderate.exists_value (h : info.Moderate) {times : Times} (timed : info.times = some times)
    (x : Extreme) (c : Component) :
    ∃ value : Timing, value.Moderate ∧ info.extreme x c = value.count c := by
  obtain ⟨filled, moderate⟩ := h times timed
  have counted : times.values.map (·.count c) ≠ [] := by simpa using filled
  obtain ⟨value, listed, same⟩ := List.mem_map.mp (x.among_mem counted)
  refine ⟨value, moderate value listed, ?_⟩
  rw [extreme, timed, same]

theorem Moderate.range (h : info.Moderate) (x : Extreme) (c : Component) :
    0 ≤ info.extreme x c ∧ info.extreme x c < 2 ^ 31 := by
  cases timed : info.times with
  | none =>
    rw [extreme_of_untimed timed]
    omega
  | some times =>
    obtain ⟨value, moderate, same⟩ := h.exists_value timed x c
    rw [same]
    exact ⟨moderate.nonneg c, moderate.small c⟩

theorem Moderate.positive (h : info.Moderate) {times : Times} (timed : info.times = some times)
    (x : Extreme) : 1 ≤ info.extreme x .clock := by
  obtain ⟨value, moderate, same⟩ := h.exists_value timed x .clock
  rw [same]
  exact moderate.positive

theorem least_le_greatest (info : LineInfo) (c : Component) :
    info.extreme .least c ≤ info.extreme .greatest c := by
  unfold extreme
  split
  · exact Int.le_refl 0
  · exact Extreme.least_le_greatest _

end LineInfo

namespace Line

theorem lineLeaves_sublist {line : Line} {lines : List Line} (member : line ∈ lines) :
    line.lineLeaves.Sublist (leaves lines) := by
  induction lines with
  | nil => cases member
  | cons other lines ih =>
    rw [leaves]
    rcases List.mem_cons.mp member with rfl | later
    · exact List.sublist_append_left _ _
    · exact (ih later).trans (List.sublist_append_right _ _)

theorem Occurs.leaves_sublist {info : LineInfo} {body lines : List Line}
    (occurs : Occurs (.expanded info body) lines) : (leaves body).Sublist (leaves lines) := by
  induction occurs with
  | here member => exact lineLeaves_sublist member
  | inside member _ ih => exact ih.trans (lineLeaves_sublist member)

/-- A component of the least or the greatest time of some lines together. -/
def span (x : Extreme) (c : Component) (infos : List LineInfo) : Int :=
  (infos.map fun info => info.extreme x c).sum

section

variable {x : Extreme} {c : Component} {infos : List LineInfo}

@[simp] theorem span_nil : span x c [] = 0 := rfl

@[simp] theorem span_cons (info : LineInfo) (infos : List LineInfo) :
    span x c (info :: infos) = info.extreme x c + span x c infos := by
  simp [span]

@[simp] theorem span_append (xs ys : List LineInfo) :
    span x c (xs ++ ys) = span x c xs + span x c ys := by
  simp [span]

theorem span_nonneg (nonneg : ∀ info ∈ infos, 0 ≤ info.extreme x c) : 0 ≤ span x c infos := by
  induction infos with
  | nil => simp
  | cons info infos ih =>
    obtain ⟨first, others⟩ := List.forall_mem_cons.mp nonneg
    have rest := ih others
    rw [span_cons]
    omega

theorem span_le (moderate : ∀ info ∈ infos, info.Moderate) :
    span x c infos ≤ 2 ^ 31 * infos.length := by
  induction infos with
  | nil => simp
  | cons info infos ih =>
    obtain ⟨first, others⟩ := List.forall_mem_cons.mp moderate
    have small := (first.range x c).2
    have rest := ih others
    rw [span_cons, List.length_cons]
    omega

theorem span_least_le_greatest (c : Component) (infos : List LineInfo) :
    span .least c infos ≤ span .greatest c infos := by
  induction infos with
  | nil => simp
  | cons info infos ih =>
    have first := info.least_le_greatest c
    rw [span_cons, span_cons]
    omega

theorem span_of_untimed (untimed : ∀ info ∈ infos, info.times = none) : span x c infos = 0 := by
  induction infos with
  | nil => rfl
  | cons info infos ih =>
    obtain ⟨first, others⟩ := List.forall_mem_cons.mp untimed
    rw [span_cons, ih others, info.extreme_of_untimed first]
    rfl

-- Every instruction takes a clock period at least, so nothing is timed where no clock runs.
theorem span_clock_eq_zero_iff (moderate : ∀ info ∈ infos, info.Moderate) :
    span x .clock infos = 0 ↔ ∀ info ∈ infos, info.times = none := by
  refine ⟨fun none => ?_, span_of_untimed⟩
  induction infos with
  | nil => simp
  | cons info infos ih =>
    obtain ⟨first, others⟩ := List.forall_mem_cons.mp moderate
    have start := (first.range x .clock).1
    have rest : 0 ≤ span x .clock infos := span_nonneg fun info h => ((others info h).range x _).1
    rw [span_cons] at none
    refine List.forall_mem_cons.mpr ⟨?_, ih others (by omega)⟩
    cases timed : info.times with
    | none => rfl
    | some times =>
      have positive := first.positive timed x
      omega

end

/-! ### Totals -/

theorem exists_bounds {times : Times} (filled : times.values ≠ []) :
    ∃ least greatest, times.least? = some least ∧ times.greatest? = some greatest ∧
      ∀ x c, (Extreme.of x (least, greatest)).count c = x.among (times.values.map (·.count c)) := by
  cases values : times.values with
  | nil => exact (filled values).elim
  | cons value others =>
    refine ⟨others.foldl Timing.inf value, others.foldl Timing.sup value, ?_, ?_, ?_⟩
    · rw [Times.least?, values]
    · rw [Times.greatest?, values]
    · intro x c
      cases x with
      | least =>
        rw [Extreme.of, Timing.count_foldl_inf, Extreme.among, List.map_cons, List.min?_cons',
          Option.getD_some]
      | greatest =>
        rw [Extreme.of, Timing.count_foldl_sup, Extreme.among, List.map_cons, List.max?_cons',
          Option.getD_some]

theorem count_addTimes {bounds : Timing × Timing} {line : Line} {x : Extreme} {c : Component}
    (nonneg : 0 ≤ (x.of bounds).count c + line.info.extreme x c)
    (fits : (x.of bounds).count c + line.info.extreme x c < 2 ^ 63) :
    (x.of (Totals.addTimes bounds line)).count c =
      (x.of bounds).count c + line.info.extreme x c := by
  unfold LineInfo.extreme at nonneg fits ⊢
  unfold Totals.addTimes Line.times
  cases timed : line.info.times with
  | none => simp
  | some times =>
    rw [timed] at nonneg fits
    simp only [Option.bind_some] at nonneg fits ⊢
    by_cases filled : times.values = []
    · simp only [Times.least?, filled]
      cases x <;> simp [Extreme.among]
    · obtain ⟨least, greatest, low, high, bounded⟩ := exists_bounds filled
      rw [← bounded] at nonneg fits ⊢
      rw [low, high]
      cases x <;> exact Timing.count_add nonneg fits

theorem count_foldl_addTimes {lines : List Line} {bounds : Timing × Timing} {x : Extreme}
    {c : Component} (nonneg : ∀ line ∈ lines, 0 ≤ line.info.extreme x c)
    (start : 0 ≤ (x.of bounds).count c)
    (fits : (x.of bounds).count c + span x c (lines.map info) < 2 ^ 63) :
    (x.of (lines.foldl Totals.addTimes bounds)).count c =
      (x.of bounds).count c + span x c (lines.map info) := by
  induction lines generalizing bounds with
  | nil => simp
  | cons line lines ih =>
    obtain ⟨first, others⟩ := List.forall_mem_cons.mp nonneg
    have rest : 0 ≤ span x c (lines.map info) := span_nonneg (List.forall_mem_map.mpr others)
    rw [List.map_cons, span_cons] at fits ⊢
    have added : (x.of (Totals.addTimes bounds line)).count c =
        (x.of bounds).count c + line.info.extreme x c :=
      count_addTimes (by omega) (by omega)
    rw [List.foldl_cons, ih others (by omega) (by omega), added, Int.add_assoc]

section

variable {lines : List Line} (moderate : ∀ info ∈ leaves lines, info.Moderate)
  (few : (leaves lines).length < 2 ^ 31)
  (rolled : ∀ line ∈ lines, ∀ x c, line.info.extreme x c = span x c line.lineLeaves)

include moderate few rolled

theorem count_ofLines (x : Extreme) (c : Component) :
    (x.of ((Totals.ofLines lines).least, (Totals.ofLines lines).greatest)).count c =
      span x c (leaves lines) := by
  have flat : span x c (lines.map info) = span x c (leaves lines) := by
    clear moderate few
    induction lines with
    | nil => rfl
    | cons line lines ih =>
      obtain ⟨first, others⟩ := List.forall_mem_cons.mp rolled
      rw [List.map_cons, span_cons, leaves, span_append, first, ih others]
  have nonneg : ∀ line ∈ lines, 0 ≤ line.info.extreme x c := by
    intro line member
    rw [rolled line member]
    refine span_nonneg fun info leaf => ((moderate info ?_).range x c).1
    exact (lineLeaves_sublist member).subset leaf
  have small : span x c (leaves lines) ≤ 2 ^ 31 * (leaves lines).length := span_le moderate
  have start : (x.of (Timing.zero, Timing.zero)).count c = 0 := by cases x <;> simp [Extreme.of]
  have sum : (x.of (lines.foldl Totals.addTimes (Timing.zero, Timing.zero))).count c = _ :=
    count_foldl_addTimes nonneg (by omega) (by omega)
  rw [start, flat, Int.zero_add] at sum
  exact sum

/-! ### Expansions -/

theorem times_ofExpansion_eq_none_iff (text : Bytes) (bss : Bool) :
    (ofExpansion text bss lines).times = none ↔ ∀ info ∈ leaves lines, info.times = none := by
  have clock : (Totals.ofLines lines).least.clock.toInt = span .least .clock (leaves lines) :=
    count_ofLines moderate few rolled .least .clock
  have stopped : (Totals.ofLines lines).least.clock = 0 ↔
      ∀ info ∈ leaves lines, info.times = none := by
    rw [← span_clock_eq_zero_iff moderate, ← clock]
    exact Int64.toInt_inj.symm
  rw [← stopped]
  simp only [ofExpansion, Line.times, Line.info]
  split
  · rename_i zero
    exact ⟨fun _ => zero, fun _ => rfl⟩
  · rename_i running
    constructor
    · intro untimed
      cases untimed
    · intro zero
      exact (running zero).elim

theorem values_ofExpansion {text : Bytes} {bss : Bool} {times : Times}
    (timed : (ofExpansion text bss lines).times = some times) :
    ∃ least greatest : Timing,
      (∀ x c, (Extreme.of x (least, greatest)).count c = span x c (leaves lines)) ∧
      times.values = if least = greatest then [least] else [least, greatest] := by
  refine ⟨_, _, count_ofLines moderate few rolled, ?_⟩
  simp only [ofExpansion, Line.times, Line.info] at timed
  split at timed
  · cases timed
  · cases timed
    unfold Times.ofBounds
    split <;> rfl

/-- The line of an expansion has the bounds of its leaves. -/
theorem extreme_ofExpansion (text : Bytes) (bss : Bool) (x : Extreme) (c : Component) :
    (ofExpansion text bss lines).info.extreme x c = span x c (leaves lines) := by
  cases timed : (ofExpansion text bss lines).times with
  | none =>
    have untimed := (times_ofExpansion_eq_none_iff moderate few rolled text bss).mp timed
    rw [span_of_untimed untimed]
    exact LineInfo.extreme_of_untimed timed x c
  | some times =>
    obtain ⟨least, greatest, bounds, values⟩ := values_ofExpansion moderate few rolled timed
    rw [LineInfo.extreme, ← bounds]
    rw [Line.times] at timed
    rw [timed]
    dsimp only
    rw [values]
    split
    · subst greatest
      cases x <;> simp [Extreme.among, Extreme.of]
    · have ordered := span_least_le_greatest c (leaves lines)
      rw [← bounds, ← bounds] at ordered
      simp only [Extreme.of] at ordered
      cases x <;> simp [Extreme.among, Extreme.of] <;> omega

end

/-! ### Lines that are put together -/

/-- Lines that are leaves of some kind and expansions of such lines. -/
inductive Built (Leaf : LineInfo → Prop) : List Line → Prop where
  | nil : Built Leaf []
  | plain {info : LineInfo} {lines : List Line} (leaf : Leaf info) (rest : Built Leaf lines) :
      Built Leaf (.plain info :: lines)
  | expansion {body lines : List Line} (text : Bytes) (bss : Bool) (inner : Built Leaf body)
      (rest : Built Leaf lines) : Built Leaf (.ofExpansion text bss body :: lines)

namespace Built

variable {Leaf : LineInfo → Prop} {lines : List Line}

theorem append {others : List Line} (h : Built Leaf lines) (h' : Built Leaf others) :
    Built Leaf (lines ++ others) := by
  induction h with
  | nil => exact h'
  | plain leaf _ ih => exact .plain leaf ih
  | expansion text bss inner _ _ ih => exact .expansion text bss inner ih

theorem leaf_of_mem (h : Built Leaf lines) : ∀ info ∈ leaves lines, Leaf info := by
  induction h with
  | nil => simp [leaves]
  | plain leaf _ ih => simpa [leaves, lineLeaves] using ⟨leaf, ih⟩
  | expansion text bss _ _ inner ih =>
    rw [leaves, lineLeaves_ofExpansion]
    exact List.forall_mem_append.mpr ⟨inner, ih⟩

theorem of_mem (h : Built Leaf lines) {info : LineInfo} {body : List Line}
    (member : .expanded info body ∈ lines) :
    Built Leaf body ∧ ∃ text bss, .expanded info body = ofExpansion text bss body := by
  induction h with
  | nil => cases member
  | plain _ _ ih => exact ih (by simpa using member)
  | expansion text bss inner _ _ ih =>
    rcases List.mem_cons.mp member with here | later
    · have same := here
      simp only [ofExpansion, expanded.injEq] at same
      obtain ⟨-, rfl⟩ := same
      exact ⟨inner, text, bss, here⟩
    · exact ih later

theorem of_occurs (h : Built Leaf lines) {info : LineInfo} {body : List Line}
    (occurs : Occurs (.expanded info body) lines) :
    Built Leaf body ∧ ∃ text bss, .expanded info body = ofExpansion text bss body := by
  induction occurs with
  | here member => exact h.of_mem member
  | inside member _ ih => exact ih (h.of_mem member).1

/-- Each line has the bounds of its leaves. -/
theorem extreme_eq (h : Built Leaf lines) (moderate : ∀ info ∈ leaves lines, info.Moderate)
    (few : (leaves lines).length < 2 ^ 31) :
    ∀ line ∈ lines, ∀ x c, line.info.extreme x c = span x c line.lineLeaves := by
  induction h with
  | nil => simp
  | plain _ _ ih =>
    simp only [leaves, lineLeaves, List.singleton_append, List.length_cons] at moderate few
    refine List.forall_mem_cons.mpr ⟨?_, ?_⟩
    · intro x c
      simp [lineLeaves, Line.info]
    · exact ih (List.forall_mem_cons.mp moderate).2 (by omega)
  | expansion text bss _ _ inner ih =>
    simp only [leaves, lineLeaves_ofExpansion, List.length_append] at moderate few
    obtain ⟨below, others⟩ := List.forall_mem_append.mp moderate
    refine List.forall_mem_cons.mpr ⟨?_, ih others (by omega)⟩
    intro x c
    rw [lineLeaves_ofExpansion]
    exact extreme_ofExpansion below (by omega) (inner below (by omega)) text bss x c

end Built

end Line

end Asm68k
