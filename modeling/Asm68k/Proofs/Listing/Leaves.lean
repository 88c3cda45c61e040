import Asm68k.Listing.Totals

/-!
Leaves of resolved lines: the lines that have nothing below them, in the order of a walk that visits
each line before the lines below it. `addSpaces_eq` says that totals count bytes at the leaves.
-/

namespace Asm68k.Line

mutual

def lineLeaves : Line → List LineInfo
  | .plain info => [info]
  | .expanded _ body => leaves body

/-- The leaves of some lines, in walking order. -/
def leaves : List Line → List LineInfo
  | [] => []
  | line :: lines => line.lineLeaves ++ leaves lines

end

mutual

def linePreorder : Line → List Line
  | .plain info => [.plain info]
  | .expanded info body => .expanded info body :: preorder body

/-- Some lines and all lines below them, each before the lines below it. -/
def preorder : List Line → List Line
  | [] => []
  | line :: lines => line.linePreorder ++ preorder lines

end

def leaf? : Line → Option LineInfo
  | .plain info => some info
  | .expanded _ _ => none

/-- The number of bytes of some lines, modulo the word size. -/
def extent (infos : List LineInfo) : Int64 := (infos.map (·.bytes)).sum

/-- A line occurs among some lines or anywhere below them. -/
inductive Occurs (line : Line) : List Line → Prop where
  | here {lines : List Line} (member : line ∈ lines) : Occurs line lines
  | inside {lines body : List Line} {info : LineInfo} (member : .expanded info body ∈ lines)
      (inner : Occurs line body) : Occurs line lines

/-- The lines of expansions have the bytes of the leaves below them. -/
def RolledUp (lines : List Line) : Prop :=
  ∀ info body, Occurs (.expanded info body) lines → info.bytes = extent (leaves body)

@[simp] theorem extent_nil : extent [] = 0 := rfl

@[simp] theorem extent_cons (info : LineInfo) (infos : List LineInfo) :
    extent (info :: infos) = info.bytes + extent infos := by
  simp [extent]

@[simp] theorem extent_append (xs ys : List LineInfo) :
    extent (xs ++ ys) = extent xs + extent ys := by
  simp [extent]

@[simp] theorem leaves_append (xs ys : List Line) : leaves (xs ++ ys) = leaves xs ++ leaves ys := by
  induction xs with
  | nil => rfl
  | cons line lines ih => simp [leaves, ih]

@[simp] theorem preorder_append (xs ys : List Line) :
    preorder (xs ++ ys) = preorder xs ++ preorder ys := by
  induction xs with
  | nil => rfl
  | cons line lines ih => simp [preorder, ih]

mutual

theorem filterMap_linePreorder : (line : Line) →
    line.linePreorder.filterMap leaf? = line.lineLeaves
  | .plain _ => rfl
  | .expanded _ body => filterMap_preorder body

theorem filterMap_preorder : (lines : List Line) → (preorder lines).filterMap leaf? = leaves lines
  | [] => rfl
  | line :: lines => by
    rw [preorder, leaves, List.filterMap_append, filterMap_linePreorder line,
      filterMap_preorder lines]

end

/-! ### Totals -/

/-- The bytes of some leaves, by the memory they lie in. -/
def spaceOf (infos : List LineInfo) : Space :=
  infos.foldl (fun space info => space + Space.ofBytes info.bytes info.bss) .zero

mutual

theorem addSpace_eq (space : Space) : (line : Line) → line.addSpace space =
    line.lineLeaves.foldl (fun space info => space + Space.ofBytes info.bytes info.bss) space
  | .plain _ => rfl
  | .expanded _ body => by rw [addSpace, lineLeaves, addSpaces_eq space body]

theorem addSpaces_eq (space : Space) : (lines : List Line) → addSpaces space lines =
    (leaves lines).foldl (fun space info => space + Space.ofBytes info.bytes info.bss) space
  | [] => rfl
  | line :: lines => by
    rw [addSpaces, leaves, List.foldl_append, addSpace_eq space line, addSpaces_eq _ lines]

end

theorem space_ofLines (lines : List Line) : (Totals.ofLines lines).space = spaceOf (leaves lines) :=
  addSpaces_eq .zero lines

theorem bytes_add_ofBytes (space : Space) (bytes : Int64) (bss : Bool) :
    (space + Space.ofBytes bytes bss).bytes = space.bytes + bytes := by
  cases bss <;> rfl

theorem bytes_spaceOf (infos : List LineInfo) : (spaceOf infos).bytes = extent infos := by
  have folded : ∀ space : Space,
      (infos.foldl (fun space info => space + Space.ofBytes info.bytes info.bss) space).bytes =
        space.bytes + extent infos := by
    induction infos with
    | nil => intro space; simp
    | cons info infos ih =>
      intro space
      rw [List.foldl_cons, ih, bytes_add_ofBytes, extent_cons, Int64.add_assoc]
  exact (folded .zero).trans (Int64.zero_add _)

theorem bytes_ofLines (lines : List Line) :
    (Totals.ofLines lines).space.bytes = extent (leaves lines) := by
  rw [space_ofLines, bytes_spaceOf]

/-! ### Leaves that count -/

/-- The leaves that have bytes or a time. -/
def counted (infos : List LineInfo) : List LineInfo :=
  infos.filter fun info => info.bytes != 0 || info.times.isSome

@[simp] theorem counted_append (xs ys : List LineInfo) :
    counted (xs ++ ys) = counted xs ++ counted ys :=
  List.filter_append ..

theorem add_ofBytes_zero (space : Space) (bss : Bool) : space + Space.ofBytes 0 bss = space := by
  have sum (a b : Space) : a + b = ⟨a.bytes + b.bytes, a.bss + b.bss, a.object + b.object⟩ := rfl
  cases bss <;> simp [sum, Space.ofBytes]

theorem spaceOf_counted (infos : List LineInfo) : spaceOf (counted infos) = spaceOf infos := by
  unfold spaceOf
  generalize Space.zero = space
  induction infos generalizing space with
  | nil => rfl
  | cons info infos ih =>
    rw [counted, List.filter_cons]
    split
    · exact ih _
    · rename_i nothing
      simp only [Bool.or_eq_true, bne_iff_ne, ne_eq, not_or, Decidable.not_not] at nothing
      have empty : info.bytes = 0 := nothing.1
      rw [List.foldl_cons, empty, add_ofBytes_zero]
      exact ih space

/-! ### Expansions -/

@[simp] theorem text_ofExpansion (text : Bytes) (bss : Bool) (body : List Line) :
    (ofExpansion text bss body).text = text := rfl

@[simp] theorem lineLeaves_ofExpansion (text : Bytes) (bss : Bool) (body : List Line) :
    (ofExpansion text bss body).lineLeaves = leaves body := by
  simp [ofExpansion, lineLeaves]

@[simp] theorem bytes_ofExpansion (text : Bytes) (bss : Bool) (body : List Line) :
    (ofExpansion text bss body).bytes = extent (leaves body) :=
  bytes_ofLines body

theorem Occurs.trans {line : Line} {info : LineInfo} {body lines : List Line}
    (outer : Occurs (.expanded info body) lines) (inner : Occurs line body) :
    Occurs line lines := by
  induction outer with
  | here member => exact .inside member inner
  | inside member _ ih => exact .inside member ih

theorem rolledUp_nil : RolledUp [] := by
  intro info body occurs
  cases occurs with
  | here member => cases member
  | inside member _ => cases member

theorem rolledUp_append {xs ys : List Line} (hx : RolledUp xs) (hy : RolledUp ys) :
    RolledUp (xs ++ ys) := by
  intro info body occurs
  cases occurs with
  | here member =>
    rcases List.mem_append.mp member with left | right
    · exact hx info body (.here left)
    · exact hy info body (.here right)
  | inside member inner =>
    rcases List.mem_append.mp member with left | right
    · exact hx info body (.inside left inner)
    · exact hy info body (.inside right inner)

theorem rolledUp_plain (info : LineInfo) : RolledUp [.plain info] := by
  intro inner body occurs
  cases occurs with
  | here member => simp at member
  | inside member _ => simp at member

theorem rolledUp_ofExpansion (text : Bytes) (bss : Bool) {body : List Line} (h : RolledUp body) :
    RolledUp [ofExpansion text bss body] := by
  intro info inner occurs
  cases occurs with
  | here member =>
    simp only [ofExpansion, List.mem_singleton, expanded.injEq] at member
    obtain ⟨rfl, rfl⟩ := member
    exact bytes_ofLines _
  | inside member deeper =>
    simp only [ofExpansion, List.mem_singleton, expanded.injEq] at member
    obtain ⟨-, rfl⟩ := member
    exact h info inner deeper

/-- In lines that are rolled up, leaves and direct children have the same bytes together. -/
theorem sum_bytes_eq_extent {lines : List Line} (h : RolledUp lines) :
    (lines.map Line.bytes).sum = extent (leaves lines) := by
  induction lines with
  | nil => rfl
  | cons line lines ih =>
    have rest : RolledUp lines := fun info body occurs => h info body (by
      cases occurs with
      | here member => exact .here (List.mem_cons_of_mem _ member)
      | inside member inner => exact .inside (List.mem_cons_of_mem _ member) inner)
    rw [List.map_cons, List.sum_cons, ih rest, leaves, extent_append]
    cases line with
    | plain info => simp [lineLeaves, bytes, Line.info]
    | expanded info body =>
      rw [lineLeaves, ← h info body (.here List.mem_cons_self)]
      rfl

end Asm68k.Line
