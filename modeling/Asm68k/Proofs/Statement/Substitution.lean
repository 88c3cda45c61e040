import Mathlib.Data.List.Chain
import Asm68k.Proofs.Statement.Fragment

/-!
Macro arguments. Replacing the placeholders one argument after the other comes to one reading of the
text, unless an argument that is inserted right behind a placeholder begins with the digits of
another one. `substitute_simultaneous` says for which arguments and for which texts.
-/

namespace Asm68k

/-- No backslash has another one right behind it. -/
def Unpaired (text : Bytes) : Prop :=
  text.IsChain fun b c => b = '\\'.toUInt8 → c ≠ '\\'.toUInt8

instance : DecidablePred Unpaired := fun text => inferInstanceAs (Decidable (text.IsChain _))

namespace Fragment

open Decimal (digit)

def argument (arguments : List Bytes) (index : Nat) : Bytes := arguments.getD (index - 1) []

def fill (arguments : List Bytes) : Fragment → Bytes
  | .byte b => [b]
  | .placeholder index => argument arguments index

/-- The text of argument `next`, inserted right behind the placeholder `index`, does not make it the
placeholder of an argument that is still to be replaced. -/
def Apart (arguments : List Bytes) (index next : Nat) : Prop :=
  next ≤ 10 * index ∨ ∃ b ∈ (argument arguments next).head?,
    Bytes.isDigit b = true → next ≤ 10 * index + digit b

variable {count : Nat} {arguments : List Bytes}

theorem placeholderText_ne_nil (index : Nat) : placeholderText index ≠ [] :=
  List.cons_ne_nil _ _

theorem backslash_not_mem (n : Nat) : '\\'.toUInt8 ∉ Decimal.ofNat n :=
  fun member => absurd (Decimal.isDigit_of_mem member) (by decide)

theorem not_mem_argument (closed : ∀ argument ∈ arguments, '\\'.toUInt8 ∉ argument)
    (index : Nat) : '\\'.toUInt8 ∉ argument arguments index := by
  rw [argument, List.getD_eq_getElem?_getD]
  cases found : arguments[index - 1]? with
  | none => exact List.not_mem_nil
  | some text => exact closed text (List.mem_of_getElem? found)

/-! ### Rounds of replacement -/

/-- A fragment once the arguments above `level` are inserted. -/
def render (arguments : List Bytes) (level : Nat) : Fragment → Bytes
  | .byte b => [b]
  | .placeholder index =>
    if level < index then argument arguments index else placeholderText index

/-- What stands behind a fragment does not make it a longer placeholder, also once the arguments
above `level` are inserted. -/
def Clear (arguments : List Bytes) (count level : Nat) : Fragment → Fragment → Prop
  | .byte b, .byte c =>
    b = '\\'.toUInt8 → Bytes.isDigit c = true → 0 < digit c → count < digit c
  | .byte b, .placeholder _ => b ≠ '\\'.toUInt8
  | .placeholder index, .byte b => Bytes.isDigit b = true → count < 10 * index + digit b
  | .placeholder index, .placeholder next => level < next → Apart arguments index next

theorem Clear.mono {lower higher : Nat} (le : lower ≤ higher) {fragment next : Fragment}
    (clear : Clear arguments count lower fragment next) :
    Clear arguments count higher fragment next := by
  cases fragment <;> cases next <;> try exact clear
  exact fun above => clear (Nat.lt_of_le_of_lt le above)

section

variable {level round index : Nat} {fragments : List Fragment}

theorem not_prefix_byte (positive : 0 < round) (bounded : round ≤ count)
    (clear : (.byte '\\'.toUInt8 :: fragments).IsChain (Clear arguments count round)) :
    ¬ placeholderText round <+: '\\'.toUInt8 :: fragments.flatMap (render arguments round) := by
  intro found
  have found := (List.cons_prefix_cons.mp found).2
  obtain ⟨b, behind, written, decimal, nonzero, small⟩ := Decimal.exists_first positive
  rw [written] at found
  cases fragments with
  | nil => cases List.prefix_nil.mp found
  | cons next fragments =>
    have clear := (List.isChain_cons.mp clear).1 next rfl
    cases next with
    | byte c =>
      obtain ⟨rfl, -⟩ := List.cons_prefix_cons.mp found
      have := clear rfl decimal nonzero
      omega
    | placeholder next => exact clear rfl

theorem not_prefix_placeholder (positive : 0 < index) (below : index < round)
    (bounded : round ≤ count)
    (clear : (.placeholder index :: fragments).IsChain (Clear arguments count round)) :
    ¬ placeholderText round <+:
      placeholderText index ++ fragments.flatMap (render arguments round) := by
  intro found
  obtain ⟨tail, joined⟩ := (List.cons_prefix_cons.mp found).2
  obtain ⟨behind, written, -⟩ | ⟨behind, written, rendered⟩ := List.append_eq_append_iff.mp joined
  · obtain ⟨front, small, spelled, -⟩ :=
      Decimal.exists_of_append written (Decimal.ofNat_ne_nil round)
    have := Decimal.ofNat_injective spelled
    omega
  cases behind with
  | nil =>
    rw [List.append_nil] at written
    have := Decimal.ofNat_injective written
    omega
  | cons c behind =>
    -- The number that was found goes on with a digit, which the next fragment begins with.
    obtain ⟨decimal, small⟩ := Decimal.le_of_append positive written
    cases fragments with
    | nil => cases rendered
    | cons next fragments =>
      have clear := (List.isChain_cons.mp clear).1 next rfl
      rw [List.flatMap_cons] at rendered
      cases next with
      | byte b =>
        obtain rfl : b = c := List.head_eq_of_cons_eq rendered
        have := clear decimal
        omega
      | placeholder next =>
        rw [render] at rendered
        split at rendered
        · rename_i inserted
          obtain close | ⟨b, first, clear⟩ := clear inserted
          · omega
          · obtain ⟨text, first⟩ := List.head?_eq_some_iff.mp first
            rw [first] at rendered
            obtain rfl : b = c := List.head_eq_of_cons_eq rendered
            have := clear decimal
            omega
        · obtain rfl : '\\'.toUInt8 = c := List.head_eq_of_cons_eq rendered
          exact absurd decimal (by decide)

/-- One round replaces the placeholders of one argument and nothing else. -/
theorem replaceAll_render (inRange : InRange count fragments) (bounded : level + 1 ≤ count)
    (closed : ∀ index, '\\'.toUInt8 ∉ argument arguments index)
    (clear : fragments.IsChain (Clear arguments count (level + 1))) :
    Bytes.replaceAll (fragments.flatMap (render arguments (level + 1)))
      (placeholderText (level + 1)) (argument arguments (level + 1)) =
        fragments.flatMap (render arguments level) := by
  induction fragments with
  | nil => rfl
  | cons fragment fragments ih =>
    have later := ih (inRange.of_subset (List.subset_cons_self _ _)) (List.isChain_cons.mp clear).2
    rw [List.flatMap_cons, List.flatMap_cons]
    cases fragment with
    | byte b =>
      rw [render, render, List.singleton_append, List.singleton_append, Bytes.replaceAll_miss,
        later]
      by_cases backslash : b = '\\'.toUInt8
      · subst backslash
        exact not_prefix_byte (Nat.succ_pos level) bounded clear
      · exact fun found => backslash (List.cons_prefix_cons.mp found).1.symm
    | placeholder index =>
      obtain above | rfl | below := Nat.lt_trichotomy (level + 1) index
      · rw [render, render, if_pos above, if_pos (by omega), placeholderText,
          Bytes.replaceAll_append (closed index), ← placeholderText, later]
      · rw [render, render, if_neg (Nat.lt_irrefl _), if_pos (Nat.lt_succ_self level),
          Bytes.replaceAll_hit (placeholderText_ne_nil _), later]
      · have positive := (inRange index List.mem_cons_self).1
        have missed := not_prefix_placeholder positive below bounded clear
        rw [render, render, if_neg (by omega), if_neg (by omega)]
        rw [placeholderText, placeholderText, List.cons_append] at missed ⊢
        rw [Bytes.replaceAll_miss missed, Bytes.replaceAll_append (backslash_not_mem index),
          ← placeholderText, later, List.cons_append]

theorem substitute_concat (arguments : List Bytes) (last text : Bytes) :
    substitute (arguments ++ [last]) text =
      substitute arguments (text.replaceAll (placeholderText (arguments.length + 1)) last) := by
  rw [substitute, List.zipIdx_append, List.foldr_append, Nat.add_comm]
  rfl

/-- The rounds for the arguments above `lower`. -/
theorem substitute_take {lower : Nat} (le : lower ≤ level) (bounded : level ≤ arguments.length)
    (inRange : InRange arguments.length fragments)
    (closed : ∀ index, '\\'.toUInt8 ∉ argument arguments index)
    (clear : fragments.IsChain (Clear arguments arguments.length (lower + 1))) :
    substitute (arguments.take level) (fragments.flatMap (render arguments level)) =
      substitute (arguments.take lower) (fragments.flatMap (render arguments lower)) := by
  induction level, le using Nat.le_induction with
  | base => rfl
  | succ level le ih =>
    have here : argument arguments (level + 1) = arguments[level] := by
      rw [argument, Nat.add_sub_cancel, List.getD_eq_getElem?_getD,
        List.getElem?_eq_getElem bounded]
      rfl
    have clear := clear.imp fun _ _ => Clear.mono (Nat.succ_le_succ le)
    rw [← List.take_append_getElem bounded, substitute_concat, List.length_take,
      Nat.min_eq_left (by omega), ← here, replaceAll_render inRange bounded closed clear,
      ih (by omega)]

theorem render_last (inRange : InRange count fragments) :
    fragments.flatMap (render arguments count) = fragments.flatMap written := by
  refine List.flatMap_congr fun fragment member => ?_
  cases fragment with
  | byte b => rfl
  | placeholder index => rw [written, render, if_neg (Nat.not_lt.mpr (inRange index member).2)]

theorem render_zero (inRange : InRange count fragments) :
    fragments.flatMap (render arguments 0) = fragments.flatMap (fill arguments) := by
  refine List.flatMap_congr fun fragment member => ?_
  cases fragment with
  | byte b => rfl
  | placeholder index => rw [fill, render, if_pos (inRange index member).1]

theorem substitute_written (inRange : InRange arguments.length fragments)
    (closed : ∀ index, '\\'.toUInt8 ∉ argument arguments index)
    (clear : fragments.IsChain (Clear arguments arguments.length 1)) :
    substitute arguments (fragments.flatMap written) = fragments.flatMap (fill arguments) := by
  have rounds := substitute_take (Nat.zero_le _) (Nat.le_refl _) inRange closed clear
  rwa [List.take_length, List.take_zero, render_last inRange, render_zero inRange] at rounds

end

theorem Reading.clear {text : Bytes} {fragments : List Fragment} {level : Nat}
    (reading : Reading count text fragments) (unpaired : Unpaired text)
    (apart : ∀ index next, [.placeholder index, .placeholder next] <:+: fragments →
      level < next → Apart arguments index next) :
    fragments.IsChain (Clear arguments count level) := by
  unfold Unpaired at unpaired
  induction reading with
  | nil => exact .nil
  | @byte b rest fragments plain later ih =>
    obtain ⟨here, unpaired⟩ := List.isChain_cons.mp unpaired
    have tail := ih unpaired fun index next pair => apart index next (List.infix_cons pair)
    refine tail.cons fun next first => ?_
    obtain ⟨fragments, rfl⟩ := List.head?_eq_some_iff.mp first
    have begins := later.written_eq
    rw [List.flatMap_cons] at begins
    cases next with
    | byte c =>
      intro backslash decimal nonzero
      refine Nat.not_le.mp fun bounded => plain backslash (digit c) nonzero bounded ?_
      rw [Decimal.ofNat_digit decimal, ← begins]
      exact List.prefix_append [c] _
    | placeholder index =>
      intro backslash
      refine here '\\'.toUInt8 ?_ backslash rfl
      rw [← begins]
      rfl
  | @placeholder index rest fragments positive bounded longest later ih =>
    have tail := ih unpaired.right_of_append
      fun index next pair => apart index next (List.infix_cons pair)
    refine tail.cons fun next first => ?_
    obtain ⟨fragments, rfl⟩ := List.head?_eq_some_iff.mp first
    have begins := later.written_eq
    rw [List.flatMap_cons] at begins
    cases next with
    | byte b =>
      intro decimal
      refine Nat.not_le.mp fun bounded => ?_
      have longer := longest (10 * index + digit b) (by omega) bounded
      rw [Decimal.ofNat_concat positive decimal, ← begins, List.prefix_append_right_inj,
        List.length_append] at longer
      exact absurd (longer (List.prefix_append [b] _)) (Nat.not_succ_le_self _)
    | placeholder next => exact apart index next (List.prefix_append _ fragments).isInfix

/-! ### Arguments that come in between -/

/-- One byte for each of `count` arguments, a zero for `target` and a letter for the others. -/
def probe (count target : Nat) : List Bytes :=
  (List.range' 1 count).map fun index => [if index = target then '0'.toUInt8 else 'x'.toUInt8]

/-- A fragment once the arguments from `target` on are inserted. -/
def settle (target : Nat) : Fragment → Fragment
  | .byte b => .byte b
  | .placeholder index =>
    if index < target then .placeholder index
    else .byte (if index = target then '0'.toUInt8 else 'x'.toUInt8)

section

variable {target index level : Nat} {fragments : List Fragment}

theorem length_probe : (probe count target).length = count := by
  rw [probe, List.length_map, List.length_range']

theorem argument_probe (positive : 0 < index) (bounded : index ≤ count) :
    argument (probe count target) index =
      [if index = target then '0'.toUInt8 else 'x'.toUInt8] := by
  rw [argument, probe, List.getD_eq_getElem?_getD, List.getElem?_map,
    List.getElem?_range' (by omega), Option.map_some, Option.getD_some, Nat.one_mul,
    Nat.add_sub_cancel' positive]

theorem take_probe (le : level ≤ count) :
    (probe count target).take level = probe level target := by
  rw [probe, ← List.map_take, List.take_range'_of_length_ge le]
  rfl

theorem closed_probe : ∀ argument ∈ probe count target, '\\'.toUInt8 ∉ argument := by
  intro argument member
  obtain ⟨index, -, rfl⟩ := List.mem_map.mp member
  split <;> decide

theorem apart_probe {next : Nat} (positive : 0 < next) (bounded : next ≤ count)
    (other : next ≠ target) : Apart (probe count target) index next := by
  refine .inr ⟨'x'.toUInt8, ?_, fun decimal => absurd decimal (by decide)⟩
  rw [argument_probe positive bounded, if_neg other]
  rfl

theorem length_fill_probe (inRange : InRange count fragments) :
    (fragments.flatMap (fill (probe count target))).length = fragments.length := by
  induction fragments with
  | nil => rfl
  | cons fragment fragments ih =>
    have later := ih (inRange.of_subset (List.subset_cons_self _ _))
    rw [List.flatMap_cons, List.length_append, later, List.length_cons, Nat.add_comm]
    cases fragment with
    | byte b => rfl
    | placeholder index =>
      obtain ⟨positive, bounded⟩ := inRange index List.mem_cons_self
      rw [fill, argument_probe positive bounded]
      rfl

theorem render_probe (inRange : InRange count fragments) :
    fragments.flatMap (render (probe count (level + 1)) level) =
      (fragments.map (settle (level + 1))).flatMap written := by
  rw [List.flatMap_map]
  refine List.flatMap_congr fun fragment member => ?_
  cases fragment with
  | byte b => rfl
  | placeholder index =>
    obtain ⟨positive, bounded⟩ := inRange index member
    rw [render, settle]
    split
    · rw [if_neg (by omega), argument_probe positive bounded, written]
    · rw [if_pos (by omega), written]

theorem inRange_settle (inRange : InRange count fragments) (level : Nat) :
    InRange level (fragments.map (settle (level + 1))) := by
  intro index member
  obtain ⟨fragment, member, settled⟩ := List.mem_map.mp member
  cases fragment with
  | byte b => cases settled
  | placeholder other =>
    rw [settle] at settled
    split at settled
    · cases settled
      exact ⟨(inRange index member).1, by omega⟩
    · cases settled

theorem unpaired_placeholderText (index : Nat) : Unpaired (placeholderText index) := by
  have digits : (Decimal.ofNat index).Pairwise fun b c => b = '\\'.toUInt8 → c ≠ '\\'.toUInt8 :=
    List.pairwise_of_forall_mem_list fun b _ c member _ same =>
      backslash_not_mem index (same ▸ member)
  refine digits.isChain.cons fun c first _ same => backslash_not_mem index ?_
  exact same ▸ List.mem_of_head? first

theorem unpaired_settle (unpaired : Unpaired (fragments.flatMap written)) :
    Unpaired ((fragments.map (settle target)).flatMap written) := by
  unfold Unpaired at *
  induction fragments with
  | nil => exact .nil
  | cons fragment fragments ih =>
    rw [List.flatMap_cons, List.isChain_append] at unpaired
    obtain ⟨-, later, between⟩ := unpaired
    rw [List.map_cons, List.flatMap_cons, List.isChain_append]
    refine ⟨?_, ih later, ?_⟩
    · cases fragment with
      | byte b => exact .singleton b
      | placeholder index =>
        rw [settle]
        split
        · exact unpaired_placeholderText index
        · exact .singleton _
    · -- Only a single byte ends in a backslash, and the next fragment begins as it did before.
      intro b last c first backslash
      cases fragment with
      | byte _ =>
        cases fragments with
        | nil => cases first
        | cons next fragments =>
          cases next with
          | byte _ => exact between b last c first backslash
          | placeholder _ => exact absurd rfl (between b last '\\'.toUInt8 rfl backslash)
      | placeholder index =>
        rw [settle] at last
        split at last
        · rw [written, placeholderText,
            List.getLast?_cons_of_ne_nil (Decimal.ofNat_ne_nil index)] at last
          exact absurd (backslash ▸ List.mem_of_getLast? last) (backslash_not_mem index)
        · have other : (if index = target then '0'.toUInt8 else 'x'.toUInt8) ≠ '\\'.toUInt8 := by
            split <;> decide
          exact absurd ((Option.some.inj last).trans backslash) other

/-- The zero is read with the placeholder in front of it. -/
theorem length_ofText_settle (inRange : InRange count fragments)
    (pair : [.placeholder index, .placeholder (level + 1)] <:+: fragments)
    (far : 10 * index < level + 1) :
    (ofText level ((fragments.map (settle (level + 1))).flatMap written)).length <
      fragments.length := by
  have settled : [.placeholder index, .byte '0'.toUInt8] <:+:
      fragments.map (settle (level + 1)) := by
    have mapped := pair.map (settle (level + 1))
    rwa [List.map_cons, List.map_singleton, settle, settle, if_pos (by omega),
      if_neg (Nat.lt_irrefl _), if_pos rfl] at mapped
  have shorter := ((reading_ofText level _).length_le (inRange_settle inRange level) rfl).2 index
    '0'.toUInt8 settled (by decide) (Nat.le_of_lt_succ far)
  rwa [List.length_map] at shorter

end

end Fragment

open Fragment

/-- The text with the arguments in the places that one reading finds. -/
def filling (arguments : List Bytes) (text : Bytes) : Bytes :=
  (ofText arguments.length text).flatMap (fill arguments)

theorem substitute_eq_filling {arguments : List Bytes} {text : Bytes} (unpaired : Unpaired text)
    (closed : ∀ argument ∈ arguments, '\\'.toUInt8 ∉ argument)
    (apart : ∀ index next, [.placeholder index, .placeholder next] <:+:
      ofText arguments.length text → Apart arguments index next) :
    substitute arguments text = filling arguments text := by
  have reading := reading_ofText arguments.length text
  have clear := reading.clear unpaired fun index next pair (_ : 1 < next) => apart index next pair
  have rounds := substitute_written reading.inRange (not_mem_argument closed) clear
  rwa [reading.written_eq] at rounds

/-- With at most ten arguments, nothing that is inserted completes a placeholder. -/
theorem substitute_eq_filling_of_le_ten {arguments : List Bytes} {text : Bytes}
    (unpaired : Unpaired text) (closed : ∀ argument ∈ arguments, '\\'.toUInt8 ∉ argument)
    (few : arguments.length ≤ 10) : substitute arguments text = filling arguments text := by
  have inRange := (reading_ofText arguments.length text).inRange
  refine substitute_eq_filling unpaired closed fun index next pair => .inl ?_
  have first := inRange index (pair.mem (by simp))
  have second := inRange next (pair.mem (by simp))
  omega

theorem substitute_probe_ne {text : Bytes} {count index next : Nat} (unpaired : Unpaired text)
    (pair : [.placeholder index, .placeholder next] <:+: ofText count text)
    (far : 10 * index < next) :
    substitute (probe count next) text ≠ filling (probe count next) text := by
  have reading := reading_ofText count text
  have inRange := reading.inRange
  obtain ⟨level, rfl⟩ : ∃ level, next = level + 1 := ⟨next - 1, by omega⟩
  have bounded : level + 1 ≤ count := (inRange (level + 1) (pair.mem (by simp))).2
  have clear : (ofText count text).IsChain
      (Clear (probe count (level + 1)) (probe count (level + 1)).length (level + 1)) := by
    rw [length_probe]
    refine reading.clear unpaired fun index next pair above => ?_
    obtain ⟨positive, bounded⟩ := inRange next (pair.mem (by simp))
    exact apart_probe positive bounded (by omega)
  -- The rounds from `next` on insert the zero; the others read it with what stands before it.
  have rounds := substitute_take (Nat.le_of_succ_le bounded) (Nat.le_of_eq length_probe.symm)
    (by rwa [length_probe]) (not_mem_argument closed_probe) clear
  rw [render_last inRange, reading.written_eq, render_probe inRange, take_probe (Nat.le_refl count),
    take_probe (Nat.le_of_succ_le bounded)] at rounds
  have later : substitute (probe level (level + 1))
      (((ofText count text).map (settle (level + 1))).flatMap written) =
        filling (probe level (level + 1))
          (((ofText count text).map (settle (level + 1))).flatMap written) := by
    rw [← reading.written_eq] at unpaired
    refine substitute_eq_filling (unpaired_settle unpaired) closed_probe ?_
    intro index next pair
    rw [length_probe] at pair
    obtain ⟨positive, bounded⟩ := (reading_ofText level _).inRange next (pair.mem (by simp))
    exact apart_probe positive bounded (by omega)
  intro same
  have lengths := congrArg List.length (later.symm.trans (rounds.symm.trans same))
  rw [filling, filling, length_probe, length_probe,
    length_fill_probe (reading_ofText level _).inRange, length_fill_probe inRange] at lengths
  exact absurd lengths (Nat.ne_of_lt (length_ofText_settle inRange pair far))

/-- The rounds insert the arguments as one reading of the text does wherever no argument completes a
placeholder in front of it. They do so for all arguments exactly if no placeholder has one right
behind it whose number is more than ten times as large. -/
theorem substitute_simultaneous {text : Bytes} (unpaired : Unpaired text) :
    (∀ arguments : List Bytes, (∀ argument ∈ arguments, '\\'.toUInt8 ∉ argument) →
      (∀ index next, [.placeholder index, .placeholder next] <:+: ofText arguments.length text →
        Apart arguments index next) →
      substitute arguments text = filling arguments text) ∧
    ∀ count,
      (∀ arguments : List Bytes, arguments.length = count →
        (∀ argument ∈ arguments, '\\'.toUInt8 ∉ argument) →
        substitute arguments text = filling arguments text) ↔
      ∀ index next, [.placeholder index, .placeholder next] <:+: ofText count text →
        next ≤ 10 * index := by
  refine ⟨fun arguments => substitute_eq_filling unpaired, fun count => ⟨?_, ?_⟩⟩
  · intro same index next pair
    refine Nat.not_lt.mp fun far => substitute_probe_ne unpaired pair far ?_
    exact same _ length_probe closed_probe
  · rintro close arguments rfl closed
    exact substitute_eq_filling unpaired closed fun index next pair => .inl (close index next pair)

/-- Twelve arguments of one byte; the last is a zero. -/
def letters : List Bytes := "abcdefghijk0".toList.map fun c => [c.toUInt8]

theorem substitute_simultaneous_letters :
    substitute letters (Bytes.ofString "\\10\\2\\12") = Bytes.ofString "jb0" := by
  have unpaired : Unpaired (Bytes.ofString "\\10\\2\\12") := by decide +kernel
  have reading : ofText 12 (Bytes.ofString "\\10\\2\\12") =
      [.placeholder 10, .placeholder 2, .placeholder 12] := by decide +kernel
  have close (index next : Nat)
      (pair : [.placeholder index, .placeholder next] <:+:
        ofText 12 (Bytes.ofString "\\10\\2\\12")) : next ≤ 10 * index := by
    rw [reading] at pair
    simp only [List.infix_cons_iff, List.infix_nil, List.cons_prefix_cons, List.prefix_nil,
      placeholder.injEq] at pair
    grind
  rw [((substitute_simultaneous unpaired).2 12).mpr close letters rfl (by decide +kernel)]
  decide +kernel

/-- The zero that stands for the last placeholder makes the first one that of the tenth argument. -/
theorem substitute_simultaneous_completed :
    Unpaired (Bytes.ofString "\\1\\12") ∧ (∀ argument ∈ letters, '\\'.toUInt8 ∉ argument) ∧
      substitute letters (Bytes.ofString "\\1\\12") = Bytes.ofString "j" ∧
      filling letters (Bytes.ofString "\\1\\12") = Bytes.ofString "a0" := by
  decide +kernel

end Asm68k
