import Mathlib.Data.List.Forall2
import Asm68k.Proofs.Timing.Key
import Asm68k.Proofs.Timing.Table

/-!
What the rows say of an instruction form. A row lists a form if it names the mnemonic and the size and
has an operand for each mode. Rows overlap; the table holds exactly the forms that some row lists, each
as the last of these rows has it: `lookup?_key_iff`. No two forms meet in one entry: `key_unambiguous`.
-/

namespace Asm68k.Timing

/-- A group allows each of its modes, any other operand its one mode. -/
def Slot.Allows : Slot → Option Mode → Prop
  | .only mode, found => found = some mode
  | .among modes, found => ∃ mode ∈ modes, found = some mode

theorem Slot.allows_iff {slot : Slot} {found : Option Mode} :
    slot.Allows found ↔ ∃ mode ∈ slot.modes, found = some mode := by
  cases slot with
  | only mode => simp [Allows, modes]
  | among modes => rfl

theorem Slot.mem_choices_iff {slots : List Slot} {modes : List (Option Mode)} :
    (∃ chosen ∈ choices slots, modes = chosen.map some) ↔ List.Forall₂ Allows slots modes := by
  induction slots generalizing modes with
  | nil => simp [choices]
  | cons slot slots ih =>
    simp only [choices, List.mem_flatMap, List.mem_map, List.forall₂_cons_left_iff, allows_iff, ← ih]
    constructor
    · rintro ⟨_, ⟨mode, possible, chosen, possible', rfl⟩, rfl⟩
      exact ⟨some mode, chosen.map some, ⟨mode, possible, rfl⟩, ⟨chosen, possible', rfl⟩, rfl⟩
    · rintro ⟨_, _, ⟨mode, possible, rfl⟩, ⟨chosen, possible', rfl⟩, rfl⟩
      exact ⟨mode :: chosen, ⟨mode, possible, chosen, possible', rfl⟩, rfl⟩

/-- A row lists a form if it is for the mnemonic and the size, and each mode has its operand. -/
structure Row.Lists (row : Row) (mnemonic : Mnemonic) (size : Option Size)
    (modes : List (Option Mode)) : Prop where
  named : mnemonic ∈ row.mnemonics
  sized : size ∈ row.sizes
  fits : List.Forall₂ Slot.Allows row.operands modes

/-- The time on top for the address of the operand that is a group. In the first place the group is
the source. -/
inductive Charges (mnemonic : Mnemonic) (long : Bool) :
    List Slot → List (Option Mode) → Option Timing → Prop where
  | fixed {slots : List Slot} {modes : List (Option Mode)} :
    (∀ slot ∈ slots, ∃ mode, slot = .only mode) → Charges mnemonic long slots modes none
  | source {group : List Mode} {slots : List Slot} {mode : Mode} {modes : List (Option Mode)} :
    Charges mnemonic long (.among group :: slots) (some mode :: modes)
      (some (sourceTime mnemonic long mode))
  | target {only : Mode} {group : List Mode} {slots : List Slot} {first : Option Mode} {mode : Mode}
      {modes : List (Option Mode)} :
    Charges mnemonic long (.only only :: .among group :: slots) (first :: some mode :: modes)
      (some (addressTime long mode))

/-- What a row says of a form that it lists. -/
structure Row.Gives (row : Row) (mnemonic : Mnemonic) (size : Option Size)
    (modes : List (Option Mode)) (entry : Entry) : Prop where
  base : entry.base = row.base
  perUnit : entry.perUnit = row.perUnit
  address : Charges mnemonic (size == some .long) row.operands modes entry.address

theorem exists_of_mem_of_forall₂ {α β : Type} {R : α → β → Prop} {as : List α} {bs : List β}
    (related : List.Forall₂ R as bs) {a : α} (member : a ∈ as) : ∃ b ∈ bs, R a b := by
  induction related with
  | nil => cases member
  | cons first _ ih =>
    rcases List.mem_cons.mp member with rfl | later
    · exact ⟨_, List.mem_cons_self, first⟩
    · obtain ⟨b, member, here⟩ := ih later
      exact ⟨b, List.mem_cons_of_mem _ member, here⟩

namespace Row.Lists

variable {row : Row} {mnemonic : Mnemonic} {size : Option Size} {modes : List (Option Mode)}

theorem exists_mode (listed : row.Lists mnemonic size modes) {slot : Slot}
    (member : slot ∈ row.operands) : ∃ mode ∈ modes, slot.Allows mode :=
  exists_of_mem_of_forall₂ listed.fits member

theorem exists_slot (listed : row.Lists mnemonic size modes) {mode : Mode}
    (member : some mode ∈ modes) : ∃ slot ∈ row.operands, mode ∈ slot.modes := by
  obtain ⟨slot, placed, allowed⟩ :=
    exists_of_mem_of_forall₂ (@List.Forall₂.flip _ _ (flip Slot.Allows) _ _ listed.fits) member
  obtain ⟨mode', inside, same⟩ := Slot.allows_iff.mp allowed
  cases same
  exact ⟨slot, placed, inside⟩

theorem exists_choice (listed : row.Lists mnemonic size modes) :
    ∃ chosen ∈ Slot.choices row.operands, modes = chosen.map some :=
  Slot.mem_choices_iff.mpr listed.fits

end Row.Lists

/-! ### Forms of one row -/

theorem Charges.eq_address? {mnemonic : Mnemonic} {long : Bool} {slots : List Slot}
    {modes : List (Option Mode)} {address : Option Timing}
    (charges : Charges mnemonic long slots modes address) {chosen : List Mode}
    (same : modes = chosen.map some) : address = Row.address? mnemonic long slots chosen := by
  cases charges with
  | fixed single =>
    match slots, single with
    | [], _ => rfl
    | [slot], single =>
      obtain ⟨mode, rfl⟩ := single slot List.mem_cons_self
      rfl
    | slot :: slot' :: slots, single =>
      obtain ⟨mode, rfl⟩ := single slot List.mem_cons_self
      obtain ⟨mode', rfl⟩ := single slot' (List.mem_cons_of_mem _ List.mem_cons_self)
      rfl
  | source =>
    obtain ⟨mode, chosen, rfl, first, -⟩ := List.map_eq_cons_iff.mp same.symm
    cases first
    rfl
  | target =>
    obtain ⟨mode, chosen, rfl, -, rest⟩ := List.map_eq_cons_iff.mp same.symm
    obtain ⟨mode', chosen, rfl, second, -⟩ := List.map_eq_cons_iff.mp rest
    cases second
    rfl

theorem charges_address? (mnemonic : Mnemonic) (long : Bool) {slots : List Slot} {chosen : List Mode}
    (short : slots.length ≤ 2) (fits : List.Forall₂ Slot.Allows slots (chosen.map some)) :
    Charges mnemonic long slots (chosen.map some) (Row.address? mnemonic long slots chosen) := by
  match slots, chosen, short, fits with
  | [], [], _, _ => exact .fixed (by simp)
  | [.only _], [_], _, _ => exact .fixed (by simp)
  | .among _ :: _, _ :: _, _, _ => exact .source
  | [.only _, .only _], [_, _], _, _ => exact .fixed (by simp)
  | [.only _, .among _], [_, _], _, _ => exact .target

section

variable {row : Row} {mnemonic : Mnemonic} {size : Option Size} {modes : List (Option Mode)}
  {entry : Entry}

theorem Row.Gives.eq_entry (gives : row.Gives mnemonic size modes entry) {chosen : List Mode}
    (same : modes = chosen.map some) : entry = row.entry mnemonic size chosen := by
  obtain ⟨base, perUnit, address⟩ := gives
  cases entry
  cases base
  cases perUnit
  exact congrArg (Entry.mk _ · _) (address.eq_address? same)

/-- No form has an operand after the second, where `address?` would look for no group. -/
theorem Row.length_operands_le : ∀ row ∈ rows, row.operands.length ≤ 2 := by decide +kernel

theorem Row.Lists.gives_entry (member : row ∈ rows) {chosen : List Mode}
    (listed : row.Lists mnemonic size (chosen.map some)) :
    row.Gives mnemonic size (chosen.map some) (row.entry mnemonic size chosen) :=
  ⟨rfl, rfl, charges_address? mnemonic _ (length_operands_le row member) listed.fits⟩

/-- The entries of a row are the forms that it lists, as it has them. -/
theorem Row.mem_entries_iff (member : row ∈ rows) :
    (key mnemonic size modes, entry) ∈ row.entries ↔
      row.Lists mnemonic size modes ∧ row.Gives mnemonic size modes entry := by
  simp only [entries, List.mem_flatMap, List.mem_map, Prod.mk.injEq]
  constructor
  · rintro ⟨mnemonic', named, size', sized, chosen, possible, same, rfl⟩
    obtain ⟨rfl, rfl, rfl⟩ := eq_of_key_eq same
    have listed : row.Lists mnemonic' size' (chosen.map some) :=
      ⟨named, sized, Slot.mem_choices_iff.mp ⟨chosen, possible, rfl⟩⟩
    exact ⟨listed, listed.gives_entry member⟩
  · rintro ⟨listed, gives⟩
    obtain ⟨chosen, possible, same⟩ := listed.exists_choice
    exact ⟨mnemonic, listed.named, size, listed.sized, chosen, possible, same ▸ rfl,
      (gives.eq_entry same).symm⟩

/-- The entry that a row has under a key. -/
def Row.find? (row : Row) (key : Bytes) : Option Entry :=
  (row.entries.reverse.find? (·.1 == key)).map (·.2)

theorem Row.find?_eq_some (member : row ∈ rows)
    (found : row.find? (key mnemonic size modes) = some entry) :
    row.Lists mnemonic size modes ∧ row.Gives mnemonic size modes entry := by
  obtain ⟨⟨name, entry⟩, first, rfl⟩ := Option.map_eq_some_iff.mp found
  obtain rfl : name = key mnemonic size modes :=
    beq_iff_eq.mp (@List.find?_some _ _ (name, entry) _ first)
  exact (mem_entries_iff member).mp (List.mem_reverse.mp (List.mem_of_find?_eq_some first))

theorem Row.find?_eq_none_iff (member : row ∈ rows) :
    row.find? (key mnemonic size modes) = none ↔ ¬row.Lists mnemonic size modes := by
  constructor
  · intro missing listed
    obtain ⟨chosen, -, rfl⟩ := listed.exists_choice
    have stored := (mem_entries_iff member).mpr ⟨listed, listed.gives_entry member⟩
    have others := List.find?_eq_none.mp (Option.map_eq_none_iff.mp missing)
    exact others _ (List.mem_reverse.mpr stored) (beq_self_eq_true _)
  · intro unlisted
    cases found : row.find? (key mnemonic size modes) with
    | none => rfl
    | some entry => exact absurd (find?_eq_some member found).1 unlisted

theorem Row.find?_eq_some_iff (member : row ∈ rows) :
    row.find? (key mnemonic size modes) = some entry ↔
      row.Lists mnemonic size modes ∧ row.Gives mnemonic size modes entry := by
  refine ⟨find?_eq_some member, fun ⟨listed, gives⟩ => ?_⟩
  cases found : row.find? (key mnemonic size modes) with
  | none => exact absurd listed ((find?_eq_none_iff member).mp found)
  | some entry' =>
    obtain ⟨chosen, -, same⟩ := listed.exists_choice
    rw [gives.eq_entry same, (find?_eq_some member found).2.eq_entry same]

/-! ### Forms of the table -/

theorem findSome?_reverse_eq_some_iff {α β : Type} {f : α → Option β} {l : List α} {b : β} :
    l.reverse.findSome? f = some b ↔
      ∃ earlier a later, l = earlier ++ a :: later ∧ f a = some b ∧ ∀ x ∈ later, f x = none := by
  rw [List.findSome?_eq_some_iff]
  constructor
  · rintro ⟨later, a, earlier, split, found, missing⟩
    refine ⟨earlier.reverse, a, later.reverse, ?_, found, by simpa using missing⟩
    rw [← List.reverse_reverse l, split, List.reverse_append, List.reverse_cons, List.append_assoc,
      List.singleton_append]
  · rintro ⟨earlier, a, later, rfl, found, missing⟩
    exact ⟨later.reverse, a, earlier.reverse, by simp, found, by simpa using missing⟩

theorem lookup?_eq_findSome? (key : Bytes) :
    lookup? key = rows.reverse.findSome? (·.find? key) := by
  rw [lookup?_eq, List.reverse_flatMap, List.find?_flatMap, List.map_findSome?]
  rfl

theorem lookup?_key_eq_none_iff :
    lookup? (key mnemonic size modes) = none ↔ ∀ row ∈ rows, ¬row.Lists mnemonic size modes := by
  rw [lookup?_eq_findSome?, List.findSome?_eq_none_iff]
  refine forall_congr' fun row => ?_
  rw [List.mem_reverse]
  exact forall_congr' Row.find?_eq_none_iff

/-- A form with an entry is listed by some row, which gives the entry. -/
theorem exists_row_of_lookup?_key (found : lookup? (key mnemonic size modes) = some entry) :
    ∃ row ∈ rows, row.Lists mnemonic size modes ∧ row.Gives mnemonic size modes entry := by
  rw [lookup?_eq_findSome?] at found
  obtain ⟨row, member, found⟩ := List.exists_of_findSome?_eq_some found
  have member := List.mem_reverse.mp member
  exact ⟨row, member, Row.find?_eq_some member found⟩

end

/-- The table has exactly the forms that some row lists, each as the last of these rows gives it. -/
theorem lookup?_key_iff (mnemonic : Mnemonic) (size : Option Size) (modes : List (Option Mode)) :
    ((∃ entry, lookup? (key mnemonic size modes) = some entry) ↔
        ∃ row ∈ rows, row.Lists mnemonic size modes) ∧
      ∀ entry, lookup? (key mnemonic size modes) = some entry ↔
        ∃ earlier row later, rows = earlier ++ row :: later ∧
          (row.Lists mnemonic size modes ∧ row.Gives mnemonic size modes entry) ∧
          ∀ other ∈ later, ¬other.Lists mnemonic size modes := by
  constructor
  · rw [← Option.ne_none_iff_exists', ne_eq, lookup?_key_eq_none_iff]
    push Not
    rfl
  intro entry
  rw [lookup?_eq_findSome?, findSome?_reverse_eq_some_iff]
  refine exists_congr fun earlier => exists_congr fun row => exists_congr fun later => ?_
  refine and_congr_right fun split => and_congr ?_ ?_
  · exact Row.find?_eq_some_iff (by simp [split])
  · exact forall₂_congr fun other member => Row.find?_eq_none_iff (by simp [split, member])

/-- Forms with one key are the same form, so every entry of the table is that of exactly one form. -/
theorem key_unambiguous :
    (∀ mnemonic mnemonic' size size' modes modes',
      key mnemonic size modes = key mnemonic' size' modes' ↔
        mnemonic = mnemonic' ∧ size = size' ∧ modes = modes') ∧
    ∀ text entry, lookup? text = some entry →
      ∃! form : Mnemonic × Option Size × List (Option Mode), key form.1 form.2.1 form.2.2 = text := by
  constructor
  · intro mnemonic mnemonic' size size' modes modes'
    refine ⟨eq_of_key_eq, ?_⟩
    rintro ⟨rfl, rfl, rfl⟩
    rfl
  · intro text entry found
    obtain ⟨row, -, mnemonic, -, size, -, modes, -, rfl, -⟩ := exists_row_of_lookup? found
    refine ⟨(mnemonic, size, modes.map some), rfl, ?_⟩
    rintro ⟨mnemonic', size', modes'⟩ same
    obtain ⟨rfl, rfl, rfl⟩ := eq_of_key_eq same
    rfl

/-- A key with a comma and a dot inside the names of its modes. -/
theorem key_unambiguous_indexed :
    ∃ entry, lookup? (Bytes.ofString "MOVE.W d(An,ix),xxx.W") = some entry ∧
      ∃! form : Mnemonic × Option Size × List (Option Mode),
        key form.1 form.2.1 form.2.2 = Bytes.ofString "MOVE.W d(An,ix),xxx.W" := by
  have listed : (lookup? (Bytes.ofString "MOVE.W d(An,ix),xxx.W")).isSome = true := by
    rw [lookup?_eq]
    decide +kernel
  obtain ⟨entry, found⟩ := Option.isSome_iff_exists.mp listed
  exact ⟨entry, found, key_unambiguous.2 _ entry found⟩

end Asm68k.Timing
