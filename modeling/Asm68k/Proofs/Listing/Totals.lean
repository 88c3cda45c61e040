import Asm68k.Proofs.Listing.Leaves

/-!
Sums in totals. The totals of lines are sums over the lines, so they do not depend on the order of the
lines, and bytes are sums over leaves, so a line can give way to the lines of its expansion:
`ofLines_additive`. Nothing is assumed of the lines, which may carry any bytes and times.
-/

namespace Asm68k

/-! ### Adding times and bytes -/

namespace Timing

theorem add_eq (t u : Timing) :
    t + u = ⟨t.clock + u.clock, t.read + u.read, t.write + u.write⟩ := rfl

protected theorem add_zero (t : Timing) : t + zero = t := by
  simp [add_eq, zero]

protected theorem zero_add (t : Timing) : zero + t = t := by
  simp [add_eq, zero]

protected theorem add_assoc (t u v : Timing) : t + u + v = t + (u + v) := by
  simp [add_eq, Int64.add_assoc]

protected theorem add_comm (t u : Timing) : t + u = u + t := by
  simp [add_eq, Int64.add_comm]

instance : Std.Associative (α := Timing) (· + ·) := ⟨Timing.add_assoc⟩

instance : Std.Commutative (α := Timing) (· + ·) := ⟨Timing.add_comm⟩

end Timing

namespace Space

theorem add_eq (s t : Space) :
    s + t = ⟨s.bytes + t.bytes, s.bss + t.bss, s.object + t.object⟩ := rfl

protected theorem add_zero (s : Space) : s + zero = s := by
  simp [add_eq, zero]

protected theorem zero_add (s : Space) : zero + s = s := by
  simp [add_eq, zero]

protected theorem add_assoc (s t u : Space) : s + t + u = s + (t + u) := by
  simp [add_eq, Int64.add_assoc]

protected theorem add_comm (s t : Space) : s + t = t + s := by
  simp [add_eq, Int64.add_comm]

instance : Std.Associative (α := Space) (· + ·) := ⟨Space.add_assoc⟩

instance : Std.Commutative (α := Space) (· + ·) := ⟨Space.add_comm⟩

/-- Every byte is in reserved or in stored memory. -/
def IsSplit (s : Space) : Prop := s.bytes = s.bss + s.object

theorem isSplit_ofBytes (bytes : Int64) (bss : Bool) : (ofBytes bytes bss).IsSplit := by
  cases bss <;> simp [ofBytes, IsSplit]

theorem IsSplit.add {s t : Space} (hs : s.IsSplit) (ht : t.IsSplit) : (s + t).IsSplit := by
  unfold IsSplit at *
  simp only [add_eq, hs, ht]
  ac_rfl

end Space

/-! ### Bytes of leaves -/

namespace Line

theorem foldl_space (space : Space) (infos : List LineInfo) :
    infos.foldl (fun space info => space + Space.ofBytes info.bytes info.bss) space =
      space + spaceOf infos := by
  unfold spaceOf
  induction infos generalizing space with
  | nil => exact space.add_zero.symm
  | cons info infos ih =>
    rw [List.foldl_cons, List.foldl_cons, ih, ih (Space.zero + _), Space.zero_add, Space.add_assoc]

theorem spaceOf_append (xs ys : List LineInfo) : spaceOf (xs ++ ys) = spaceOf xs + spaceOf ys := by
  rw [spaceOf, List.foldl_append, foldl_space]
  rfl

theorem isSplit_spaceOf (infos : List LineInfo) : (spaceOf infos).IsSplit := by
  induction infos with
  | nil => rfl
  | cons info infos ih =>
    have first : spaceOf [info] = Space.ofBytes info.bytes info.bss := Space.zero_add _
    rw [← List.singleton_append, spaceOf_append, first]
    exact (Space.isSplit_ofBytes _ _).add ih

/-- One line, at any depth, gives way to the lines of its expansion. -/
inductive Opened : List Line → List Line → Prop where
  | here (before : List Line) (info : LineInfo) (body after : List Line) :
      Opened (before ++ .expanded info body :: after) (before ++ body ++ after)
  | inside (before : List Line) (info : LineInfo) {body body' : List Line} (after : List Line)
      (inner : Opened body body') :
      Opened (before ++ .expanded info body :: after) (before ++ .expanded info body' :: after)

theorem Opened.leaves_eq {lines lines' : List Line} (opened : Opened lines lines') :
    leaves lines = leaves lines' := by
  induction opened with
  | here before info body after => simp [leaves, lineLeaves]
  | inside before info after _ ih => simp [leaves, lineLeaves, ih]

end Line

/-! ### Totals -/

namespace Totals

open Line (leaves)

/-- Times and bytes added up. -/
def plus (t u : Totals) : Totals :=
  ⟨t.least + u.least != t.greatest + u.greatest, t.least + u.least, t.greatest + u.greatest,
    t.space + u.space⟩

theorem plus_left_comm (t u v : Totals) : t.plus (u.plus v) = u.plus (t.plus v) := by
  have least : t.least + (u.least + v.least) = u.least + (t.least + v.least) := by ac_rfl
  have greatest : t.greatest + (u.greatest + v.greatest) =
      u.greatest + (t.greatest + v.greatest) := by ac_rfl
  have space : t.space + (u.space + v.space) = u.space + (t.space + v.space) := by ac_rfl
  simp only [plus, least, greatest, space]

/-- The bounds that a line adds: none if it has no time. -/
def boundsOf (line : Line) : Timing × Timing :=
  ((line.times.bind Times.least?).getD .zero, (line.times.bind Times.greatest?).getD .zero)

theorem addTimes_eq (bounds : Timing × Timing) (line : Line) :
    addTimes bounds line = (bounds.1 + (boundsOf line).1, bounds.2 + (boundsOf line).2) := by
  unfold addTimes boundsOf
  cases line.times with
  | none => simp [Timing.add_zero]
  | some times =>
    obtain ⟨values, labels, calculation⟩ := times
    cases values with
    | nil => simp [Times.least?, Times.greatest?, Timing.add_zero]
    | cons value values => simp [Times.least?, Times.greatest?]

theorem foldl_addTimes (bounds : Timing × Timing) (lines : List Line) :
    lines.foldl addTimes bounds =
      (bounds.1 + (ofLines lines).least, bounds.2 + (ofLines lines).greatest) := by
  show _ = (bounds.1 + (lines.foldl addTimes _).1, bounds.2 + (lines.foldl addTimes _).2)
  induction lines generalizing bounds with
  | nil => simp [Timing.add_zero]
  | cons line lines ih =>
    rw [List.foldl_cons, List.foldl_cons, ih, ih (addTimes (Timing.zero, Timing.zero) line)]
    simp only [addTimes_eq, Timing.zero_add, Timing.add_assoc]

theorem ofLines_append (xs ys : List Line) :
    ofLines (xs ++ ys) = (ofLines xs).plus (ofLines ys) := by
  have times : (xs ++ ys).foldl addTimes (Timing.zero, Timing.zero) =
      ((ofLines xs).least + (ofLines ys).least, (ofLines xs).greatest + (ofLines ys).greatest) := by
    rw [List.foldl_append, foldl_addTimes]
    rfl
  have least : (ofLines (xs ++ ys)).least = (ofLines xs).least + (ofLines ys).least :=
    congrArg Prod.fst times
  have greatest : (ofLines (xs ++ ys)).greatest = (ofLines xs).greatest + (ofLines ys).greatest :=
    congrArg Prod.snd times
  have space : (ofLines (xs ++ ys)).space = (ofLines xs).space + (ofLines ys).space := by
    simp only [Line.space_ofLines, Line.leaves_append, Line.spaceOf_append]
  have whole (t : Totals) (range : t.isRange = (t.least != t.greatest)) :
      t = ⟨t.least != t.greatest, t.least, t.greatest, t.space⟩ := by rw [← range]
  rw [whole (ofLines (xs ++ ys)) rfl, least, greatest, space]
  rfl

theorem ofLines_perm {xs ys : List Line} (perm : xs.Perm ys) : ofLines xs = ofLines ys := by
  have first (line : Line) (lines : List Line) :
      ofLines (line :: lines) = (ofLines [line]).plus (ofLines lines) := ofLines_append [line] lines
  induction perm with
  | nil => rfl
  | @cons line xs ys _ ih => rw [first line xs, ih, ← first line ys]
  | swap line line' lines =>
    rw [first line' (line :: lines), first line lines, plus_left_comm, ← first line' lines,
      ← first line (line' :: lines)]
  | trans _ _ ih ih' => exact ih.trans ih'

/-- What totals are sums of: bytes are counted at the leaves, in reserved or in stored memory, and the
bounds of times at the lines themselves. So the order of lines does not matter, and bytes are the same
when a line at any depth gives way to its expansion. -/
theorem ofLines_additive :
    (∀ lines, (ofLines lines).space.bytes =
      (ofLines lines).space.bss + (ofLines lines).space.object) ∧
    (∀ info, (ofLines [.plain info]).space = .ofBytes info.bytes info.bss) ∧
    (∀ line, ((ofLines [line]).least, (ofLines [line]).greatest) = boundsOf line) ∧
    (∀ xs ys, ofLines (xs ++ ys) = (ofLines xs).plus (ofLines ys)) ∧
    (∀ xs ys : List Line, xs.Perm ys → ofLines xs = ofLines ys) ∧
    ∀ lines lines', Line.Opened lines lines' → (ofLines lines).space = (ofLines lines').space := by
  refine ⟨?_, ?_, ?_, ofLines_append, fun _ _ => ofLines_perm, ?_⟩
  · intro lines
    rw [Line.space_ofLines]
    exact Line.isSplit_spaceOf _
  · intro info
    exact Space.zero_add _
  · intro line
    have bounds := foldl_addTimes (Timing.zero, Timing.zero) [line]
    rw [List.foldl_cons, List.foldl_nil, addTimes_eq] at bounds
    simpa only [Timing.zero_add] using bounds.symm
  · intro lines lines' opened
    rw [Line.space_ofLines, Line.space_ofLines, opened.leaves_eq]

/-- Lines whose own bytes are not those of their expansions, and a sum that leaves the signed range. -/
theorem ofLines_additive_nested :
    let reserved : Line := .plain ⟨[], Int64.maxValue, true, none⟩
    let stored : Line := .plain ⟨[], 2, false, none⟩
    let branch : Line := .plain ⟨[], 4, false, some ⟨[⟨8, 1, 0⟩, ⟨10, 2, 0⟩], [], none⟩⟩
    let outer : LineInfo := ⟨[], 100, false, some ⟨[], [], none⟩⟩
    let inner : LineInfo := ⟨[], 0, true, some ⟨[⟨6, 1, 0⟩], [], none⟩⟩
    let lines := [branch, .expanded outer [stored, .expanded inner [reserved, stored], stored]]
    let opened := [branch, .expanded outer [stored, reserved, stored, stored]]
    Line.Opened lines opened ∧ (ofLines lines).space = (ofLines opened).space ∧
      ofLines lines.reverse = ofLines lines ∧
      ofLines lines =
        ⟨true, ⟨8, 1, 0⟩, ⟨10, 2, 0⟩, ⟨Int64.minValue + 9, Int64.maxValue, 10⟩⟩ := by
  intro reserved stored branch outer inner lines opened
  have step : Line.Opened lines opened :=
    .inside [branch] outer [] (.here [stored] inner [reserved, stored] [stored])
  obtain ⟨-, -, -, -, perm, expansion⟩ := ofLines_additive
  exact ⟨step, expansion lines opened step, perm _ _ lines.reverse_perm, by decide⟩

end Totals

end Asm68k
