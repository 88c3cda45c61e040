import Asm68k.Statement.Times

/-!
Entries of the table of execution times. `lookup?_eq` says that the table holds what its rows say,
the last row first; from it follows that an instruction with a form in the table has a time.
-/

namespace Asm68k.Timing

theorem foldl_addRow (rows : List Row) (table : Table) :
    rows.foldl Table.addRow table =
      (rows.flatMap Row.entries).foldl (fun table (key, entry) => table.insert key entry) table := by
  induction rows generalizing table with
  | nil => rfl
  | cons row rows ih => rw [List.foldl_cons, ih, List.flatMap_cons, List.foldl_append, Table.addRow]

theorem getElem?_foldl_insert (entries : List (Bytes × Entry)) (table : Table) (key : Bytes) :
    (entries.foldl (fun table (key, entry) => table.insert key entry) table)[key]? =
      ((entries.reverse.find? (·.1 == key)).map (·.2)).or table[key]? := by
  induction entries generalizing table with
  | nil => rfl
  | cons entry entries ih =>
    obtain ⟨name, entry⟩ := entry
    rw [List.foldl_cons, ih, List.reverse_cons, List.find?_append, Option.map_or,
      Option.or_assoc, Std.ExtTreeMap.getElem?_insert]
    congr 1
    by_cases same : name = key
    · simp [same]
    · simp [same]

/-- The entry of a form is that of the last row that is for it. -/
theorem lookup?_eq (key : Bytes) :
    lookup? key = ((rows.flatMap Row.entries).reverse.find? (·.1 == key)).map (·.2) := by
  rw [lookup?, table, foldl_addRow, getElem?_foldl_insert]
  simp

/-- A form with an entry is one of those that some row is for. -/
theorem exists_row_of_lookup? {key : Bytes} {entry : Entry} (h : lookup? key = some entry) :
    ∃ row ∈ rows, ∃ mnemonic ∈ row.mnemonics, ∃ size ∈ row.sizes,
      ∃ modes ∈ Slot.choices row.operands,
        key = Timing.key mnemonic size (modes.map some) ∧ entry = row.entry mnemonic size modes := by
  rw [lookup?_eq, Option.map_eq_some_iff] at h
  obtain ⟨⟨name, entry⟩, found, rfl⟩ := h
  have member := List.mem_reverse.mp (List.mem_of_find?_eq_some found)
  have same : name = key := beq_iff_eq.mp (@List.find?_some _ _ (name, entry) _ found)
  obtain ⟨row, listed, member⟩ := List.mem_flatMap.mp member
  simp only [Row.entries, List.mem_flatMap, List.mem_map, Prod.mk.injEq] at member
  obtain ⟨mnemonic, named, size, sized, modes, chosen, text, value⟩ := member
  exact ⟨row, listed, mnemonic, named, size, sized, modes, chosen, same ▸ text.symm, value.symm⟩

theorem base_ne_nil {key : Bytes} {entry : Entry} (h : lookup? key = some entry) :
    entry.base ≠ [] := by
  have filled : ∀ row ∈ rows, row.base ≠ [] := by decide +kernel
  obtain ⟨row, listed, mnemonic, -, size, -, modes, -, -, rfl⟩ := exists_row_of_lookup? h
  exact filled row listed

end Asm68k.Timing

namespace Asm68k

theorem Calculation.values_ne_nil {c : Calculation} (h : c.base ≠ []) : c.values ≠ [] := by
  have repeated : c.repeated ≠ [] := by
    unfold Calculation.repeated
    split
    · simpa using h
    · split
      · rename_i empty
        exact (h empty).elim
      · simp
    · exact h
  unfold Calculation.values
  split
  · exact repeated
  · simpa using repeated

theorem Statement.times?_of_lookup? {statement : Statement} {mnemonic : Mnemonic} {start : Nat}
    {size : Option Size} {entry : Timing.Entry}
    (opcode : statement.opcode = some ⟨.instruction mnemonic, start, size⟩)
    (found : Timing.lookup? (keyOf mnemonic size statement.operands) = some entry)
    (symbols : Bytes → Option Int64) :
    statement.times? symbols = some (timesOf symbols mnemonic statement.operands entry) := by
  rw [times?, opcode]
  exact congrArg (Option.map _) found

/-- The times of a statement are at least one. -/
theorem Statement.values_ne_nil {symbols : Bytes → Option Int64} {statement : Statement}
    {times : Times} (h : statement.times? symbols = some times) : times.values ≠ [] := by
  unfold Statement.times? at h
  split at h
  · obtain ⟨entry, found, rfl⟩ := Option.map_eq_some_iff.mp h
    exact Calculation.values_ne_nil (Timing.base_ne_nil found)
  · cases h

end Asm68k
