import Asm68k.Timing.Table

/-!
A key tells the whole form it is for. The mnemonic ends at the first dot or blank, and no name of a
mode goes on as another one with a comma; so from the key follow the mnemonic, the size and the modes:
`eq_of_key_eq`.
-/

namespace Asm68k

theorem Bytes.join_cons (mark : UInt8) (part : Bytes) (parts : List Bytes) :
    join [mark] (part :: parts) = part ++ parts.flatMap (mark :: ·) := by
  induction parts generalizing part with
  | nil => simp [join]
  | cons next parts ih =>
    rw [join, ih, List.flatMap_cons, List.append_assoc, List.singleton_append, List.cons_append]
    intro empty
    cases empty

namespace Mnemonic

theorem mem_all (mnemonic : Mnemonic) : mnemonic ∈ all := by
  have tests (test : Test) : test ∈ Test.all := by cases test <;> decide
  have conditions (condition : Condition) : condition ∈ Condition.all := by
    cases condition with
    | always | never => decide
    | when test => exact List.mem_append_right _ (List.mem_map_of_mem (tests test))
  have single {mnemonic : Mnemonic} (listed : mnemonic ∈ singles) : mnemonic ∈ all := by
    simp [all, listed]
  cases mnemonic
  case bcc test =>
    have listed : .bcc test ∈ branches := List.mem_map_of_mem (tests test)
    simp [all, listed]
  case dbcc condition =>
    have listed : .dbcc condition ∈ loops := List.mem_map_of_mem (conditions condition)
    simp [all, listed]
  case scc condition =>
    have listed : .scc condition ∈ sets := List.mem_map_of_mem (conditions condition)
    simp [all, listed]
  case shift kind direction =>
    have listed : .shift kind direction ∈ shifts := by cases kind <;> cases direction <;> decide
    simp [all, listed]
  all_goals exact single (by decide)

theorem text_checked (mnemonic : Mnemonic) :
    (∀ b ∈ mnemonic.text, b ≠ '.'.toUInt8 ∧ b ≠ ' '.toUInt8) ∧
      spellings.lookup mnemonic.text = some mnemonic := by
  have checked : all.all (fun mnemonic =>
      mnemonic.text.all (fun b => b != '.'.toUInt8 && b != ' '.toUInt8) &&
        spellings.lookup mnemonic.text == some mnemonic) = true := by
    decide +kernel
  have here := List.all_eq_true.mp checked mnemonic mnemonic.mem_all
  simpa only [Bool.and_eq_true, List.all_eq_true, bne_iff_ne, beq_iff_eq] using here

theorem eq_of_text_eq {mnemonic mnemonic' : Mnemonic} (same : mnemonic.text = mnemonic'.text) :
    mnemonic = mnemonic' := by
  have spelled := mnemonic.text_checked.2
  rw [same, mnemonic'.text_checked.2] at spelled
  exact (Option.some.inj spelled).symm

end Mnemonic

namespace Timing

theorem keyName_key (mnemonic : Mnemonic) (size : Option Size) (modes : List (Option Mode)) :
    keyName (key mnemonic size modes) = mnemonic.text := by
  have inside : ∀ b ∈ mnemonic.text, (b != '.'.toUInt8 && b != ' '.toUInt8) = true := by
    intro b member
    obtain ⟨dot, blank⟩ := mnemonic.text_checked.1 b member
    simp [dot, blank]
  unfold keyName key keyText
  rw [List.append_assoc, List.takeWhile_append_of_pos inside]
  cases size <;> cases modes <;> simp

/-! ### Names of modes -/

def anyMode : List (Option Mode) := none :: Mode.all.map some

theorem mem_anyMode (mode : Option Mode) : mode ∈ anyMode := by
  cases mode with
  | none => decide
  | some mode => cases mode <;> decide

theorem modeText_checked (mode mode' : Option Mode) :
    ¬modeText mode ++ [','.toUInt8] <+: modeText mode' ∧
      (modeText mode = modeText mode' → mode = mode') := by
  have checked : anyMode.all (fun mode => anyMode.all fun mode' =>
      !(modeText mode ++ [','.toUInt8]).isPrefixOf (modeText mode') &&
        (modeText mode != modeText mode' || mode == mode')) = true := by
    decide +kernel
  have here := List.all_eq_true.mp
    (List.all_eq_true.mp checked mode (mem_anyMode mode)) mode' (mem_anyMode mode')
  simp only [Bool.and_eq_true, Bool.not_eq_true', Bool.or_eq_true, bne_iff_ne, beq_iff_eq] at here
  refine ⟨fun front => ?_, here.2.resolve_left ∘ not_not_intro⟩
  rw [List.isPrefixOf_iff_prefix.mpr front] at here
  cases here.1

/-- The modes after the first, each with its comma. -/
def laterText (modes : List (Option Mode)) : Bytes := modes.flatMap (','.toUInt8 :: modeText ·)

theorem eq_of_modeText_append {mode mode' : Option Mode} {modes modes' : List (Option Mode)}
    (same : modeText mode ++ laterText modes = modeText mode' ++ laterText modes') :
    mode = mode' ∧ laterText modes = laterText modes' := by
  -- A name that goes on as another one would go on with the comma of the next mode.
  have short {mode mode' : Option Mode} {modes modes' : List (Option Mode)} {more : Bytes}
      (longer : modeText mode' = modeText mode ++ more)
      (rest : laterText modes = more ++ laterText modes') : more = [] := by
    cases more with
    | nil => rfl
    | cons b more =>
      cases modes with
      | nil => cases rest
      | cons next modes =>
        obtain rfl : ','.toUInt8 = b := List.head_eq_of_cons_eq rest
        refine absurd ?_ (modeText_checked mode mode').1
        exact ⟨more, by rw [longer, List.append_assoc, List.singleton_append]⟩
  rcases List.append_eq_append_iff.mp same with ⟨more, longer, rest⟩ | ⟨more, longer, rest⟩
  · obtain rfl := short longer rest
    rw [List.append_nil] at longer
    exact ⟨(modeText_checked mode mode').2 longer.symm, rest⟩
  · obtain rfl := short longer rest
    rw [List.append_nil] at longer
    exact ⟨(modeText_checked mode mode').2 longer, rest.symm⟩

theorem eq_of_laterText_eq {modes modes' : List (Option Mode)}
    (same : laterText modes = laterText modes') : modes = modes' := by
  induction modes generalizing modes' with
  | nil =>
    cases modes' with
    | nil => rfl
    | cons => cases same
  | cons mode modes ih =>
    cases modes' with
    | nil => cases same
    | cons mode' modes' =>
      obtain ⟨rfl, rest⟩ := eq_of_modeText_append (List.tail_eq_of_cons_eq same)
      rw [ih rest]

/-! ### Forms -/

/-- The operands of a form as they stand in its key. -/
def operandsText : List (Option Mode) → Bytes
  | [] => []
  | mode :: modes => ' '.toUInt8 :: (modeText mode ++ laterText modes)

def suffixText (size : Option Size) : Bytes :=
  size.elim [] fun size => ['.'.toUInt8, size.letter.toUInt8]

theorem key_eq (mnemonic : Mnemonic) (size : Option Size) (modes : List (Option Mode)) :
    key mnemonic size modes = mnemonic.text ++ (suffixText size ++ operandsText modes) := by
  unfold key keyText
  rw [List.append_assoc]
  congr 2
  · cases size <;> rfl
  · cases modes with
    | nil => rfl
    | cons mode modes =>
      rw [List.map_cons, Bytes.join_cons, List.flatMap_map]
      rfl

theorem eq_of_operandsText_eq {modes modes' : List (Option Mode)}
    (same : operandsText modes = operandsText modes') : modes = modes' := by
  cases modes with
  | nil =>
    cases modes' with
    | nil => rfl
    | cons => cases same
  | cons mode modes =>
    cases modes' with
    | nil => cases same
    | cons mode' modes' =>
      obtain ⟨rfl, rest⟩ := eq_of_modeText_append (List.tail_eq_of_cons_eq same)
      rw [eq_of_laterText_eq rest]

theorem eq_of_suffixText_append {size size' : Option Size} {modes modes' : List (Option Mode)}
    (same : suffixText size ++ operandsText modes = suffixText size' ++ operandsText modes') :
    size = size' ∧ modes = modes' := by
  -- The operands begin with a blank, a size with a dot.
  have apart (size : Size) (rest : Bytes) :
      operandsText modes ≠ suffixText (some size) ++ rest ∧
        operandsText modes' ≠ suffixText (some size) ++ rest := by
    constructor <;> rintro begins
    · cases modes <;> cases begins
    · cases modes' <;> cases begins
  cases size with
  | none =>
    cases size' with
    | none => exact ⟨rfl, eq_of_operandsText_eq same⟩
    | some size' => exact absurd same (apart size' _).1
  | some size =>
    cases size' with
    | none => exact absurd same.symm (apart size _).2
    | some size' =>
      have rest := List.tail_eq_of_cons_eq same
      have letter : size.letter.toUInt8 = size'.letter.toUInt8 := List.head_eq_of_cons_eq rest
      have sizes : size = size' := by
        revert letter
        cases size <;> cases size' <;> decide
      exact ⟨congrArg some sizes, eq_of_operandsText_eq (List.tail_eq_of_cons_eq rest)⟩

/-- Different forms have different keys. -/
theorem eq_of_key_eq {mnemonic mnemonic' : Mnemonic} {size size' : Option Size}
    {modes modes' : List (Option Mode)} (same : key mnemonic size modes = key mnemonic' size' modes') :
    mnemonic = mnemonic' ∧ size = size' ∧ modes = modes' := by
  have texts : mnemonic.text = mnemonic'.text := by
    rw [← keyName_key mnemonic size modes, same, keyName_key]
  rw [key_eq, key_eq, texts] at same
  exact ⟨Mnemonic.eq_of_text_eq texts, eq_of_suffixText_append (List.append_cancel_left same)⟩

end Timing

end Asm68k
