import Asm68k.Expression

/-!
The names that an evaluation looks up. Reading stops at the first fault, so these may be fewer than
the names in the text. Where two tables agree on them, the evaluation is the same:
`evaluate_congr`.
-/

namespace Asm68k.Expression

def Item.name? : Item → Option Bytes
  | .symbol name => some name
  | _ => none

/-- The names that are looked up while items are sorted, in order. -/
def Yard.lookups (symbols : Bytes → Option Int64) (yard : Yard) : List Item → List Bytes
  | [] => []
  | item :: items =>
    item.name?.toList ++
      match yard.step symbols item with
      | .ok next => next.lookups symbols items
      | .error _ => []

def lookups (symbols : Bytes → Option Int64) (text : Bytes) : List Bytes :=
  Yard.initial.lookups symbols (Item.ofText (bare text))

/-- All names in the text. -/
def mentions (text : Bytes) : List Bytes := (Item.ofText (bare text)).filterMap Item.name?

section

variable {symbols symbols' : Bytes → Option Int64}

theorem Yard.step_congr {yard : Yard} {item : Item}
    (agree : ∀ name ∈ item.name?, symbols' name = symbols name) :
    yard.step symbols' item = yard.step symbols item := by
  cases item with
  | symbol name => rw [step, step, agree name rfl]
  | value | operator | opening | closing | bad => rfl

theorem Yard.steps_congr {yard : Yard} {items : List Item}
    (agree : ∀ name ∈ yard.lookups symbols items, symbols' name = symbols name) :
    yard.steps symbols' items = yard.steps symbols items := by
  induction items generalizing yard with
  | nil => rfl
  | cons item items ih =>
    rw [lookups] at agree
    have here : yard.step symbols' item = yard.step symbols item := by
      apply step_congr
      intro name member
      exact agree name (List.mem_append_left _ (Option.mem_toList.mpr member))
    rw [steps, steps, here]
    cases stepped : yard.step symbols item with
    | error e => rfl
    | ok next =>
      rw [stepped] at agree
      exact ih fun name member => agree name (List.mem_append_right _ member)

theorem evaluate_congr {text : Bytes}
    (agree : ∀ name ∈ lookups symbols text, symbols' name = symbols name) :
    evaluate symbols' text = evaluate symbols text := by
  have same : compile symbols' (Item.ofText (bare text)) =
      compile symbols (Item.ofText (bare text)) := by
    rw [compile, compile, Yard.steps_congr agree]
  rw [evaluate, evaluate, same]

theorem value?_congr {text : Bytes}
    (agree : ∀ name ∈ lookups symbols text, symbols' name = symbols name) :
    value? symbols' text = value? symbols text := by
  rw [value?, value?, evaluate_congr agree]

/-! ### Names without a value -/

theorem Yard.mem_of_mem_lookups {yard : Yard} {items : List Item} {name : Bytes}
    (member : name ∈ yard.lookups symbols items) : name ∈ items.filterMap Item.name? := by
  induction items generalizing yard with
  | nil => cases member
  | cons item items ih =>
    rcases List.mem_append.mp member with here | later
    · exact List.mem_filterMap.mpr ⟨item, List.mem_cons_self, Option.mem_toList.mp here⟩
    · split at later
      · obtain ⟨other, among, named⟩ := List.mem_filterMap.mp (ih later)
        exact List.mem_filterMap.mpr ⟨other, List.mem_cons_of_mem _ among, named⟩
      · cases later

theorem mem_mentions_of_mem_lookups {text name : Bytes} (member : name ∈ lookups symbols text) :
    name ∈ mentions text := Yard.mem_of_mem_lookups member

theorem Yard.steps_absent {yard : Yard} {items : List Item} {name : Bytes}
    (member : name ∈ yard.lookups symbols items) (absent : symbols name = none) :
    ∃ e, yard.steps symbols items = .error e := by
  induction items generalizing yard with
  | nil => cases member
  | cons item items ih =>
    rw [steps]
    rw [lookups] at member
    cases stepped : yard.step symbols item with
    | error e => exact ⟨e, rfl⟩
    | ok next =>
      rw [stepped] at member
      rcases List.mem_append.mp member with here | later
      · cases item with
        | symbol other =>
          obtain rfl := Option.some.inj (Option.mem_toList.mp here)
          rw [step, absent] at stepped
          cases stepped
        | value | operator | opening | closing | bad => cases here
      · exact ih later

theorem value?_absent {text name : Bytes} (member : name ∈ lookups symbols text)
    (absent : symbols name = none) : value? symbols text = none := by
  obtain ⟨e, failed⟩ := Yard.steps_absent member absent
  rw [value?, evaluate, compile, failed]
  rfl

/-- An expression that has a value without symbols has the same with any. -/
theorem value?_constant {text : Bytes} {v : Int64} (h : value? (fun _ => none) text = some v)
    (symbols : Bytes → Option Int64) : value? symbols text = some v := by
  rw [← h]
  apply value?_congr
  intro name member
  rw [value?_absent member rfl] at h
  cases h

/-- With a part of the symbols an expression has no value or the same as with all of them. -/
theorem value?_partial {text : Bytes}
    (part : ∀ name ∈ mentions text, symbols name = none ∨ symbols name = symbols' name) :
    value? symbols text = none ∨ value? symbols text = value? symbols' text := by
  by_cases absent : ∃ name ∈ lookups symbols text, symbols name = none
  · obtain ⟨name, member, nothing⟩ := absent
    exact .inl (value?_absent member nothing)
  · refine .inr (value?_congr fun name member => ?_).symm
    rcases part name (mem_mentions_of_mem_lookups member) with nothing | same
    · exact absurd ⟨name, member, nothing⟩ absent
    · exact same.symm

end

end Asm68k.Expression
