import Asm68k.Proofs.Bytes
import Asm68k.Proofs.Resolver.Transfer

/-!
The second pass repeats the first when nothing refers forward. It begins with the tables that the
first one left, so a name that is defined again later has its last value at first; `Overlay` says
how the tables of the two passes differ at every moment.
-/

namespace Asm68k.Resolver

/-- A table laid over the base: what it does not have is found in the base. -/
def Overlay {α : Type} (base s t : Std.ExtTreeMap Bytes α compare) : Prop :=
  ∀ name : Bytes, t[name]? = s[name]?.or base[name]?

namespace Overlay

variable {α : Type} {base s t : Std.ExtTreeMap Bytes α compare}

theorem insert (h : Overlay base s t) (name : Bytes) (a : α) :
    Overlay base (s.insert name a) (t.insert name a) := by
  intro other
  rw [Std.ExtTreeMap.getElem?_insert, Std.ExtTreeMap.getElem?_insert, h other]
  split <;> rfl

theorem of_empty (base : Std.ExtTreeMap Bytes α compare) : Overlay base ∅ base := by
  intro name
  simp

/-- Where the base has no more than the table, nothing is left of it. -/
theorem eq_of_domain (h : Overlay base s t) (domain : ∀ name ∈ base, name ∈ s) : t = s := by
  apply Std.ExtTreeMap.ext_getElem?
  intro name
  rw [h name]
  by_cases known : name ∈ s
  · have here : s[name]?.isSome = true := Std.ExtTreeMap.mem_iff_isSome_getElem?.mp known
    exact Option.or_of_isSome here
  · have absent : base[name]? = none := Std.ExtTreeMap.getElem?_eq_none (known ∘ domain name)
    rw [absent, Option.or_none]

end Overlay

/-- The tables of the second pass lie over those that the first pass left. -/
def Likeness.over (final : State) : Likeness where
  symbols := Overlay final.symbols
  macros := Overlay final.macros
  symbols_insert name value h := h.insert name value
  macros_insert name body h := h.insert name body

/-- What is looked up is known at that moment, or else not even at the end. -/
def Happening.LooksBack (final : State) : Happening → Prop
  | .lookup name known => known = true ∨ final.symbols[name]? = none
  | .invocation name known => known = true ∨ final.macros[name]? = none
  | .expansion _ _ => True

instance (final : State) : DecidablePred (Happening.LooksBack final)
  | .lookup name known => inferInstanceAs (Decidable (known = true ∨ final.symbols[name]? = none))
  | .invocation name known =>
    inferInstanceAs (Decidable (known = true ∨ final.macros[name]? = none))
  | .expansion _ _ => isTrue trivial

theorem Overlay.getElem?_eq {α : Type} {base s t : Std.ExtTreeMap Bytes α compare} {name : Bytes}
    {known : Bool} (h : Overlay base s t) (back : known = true ∨ base[name]? = none)
    (here : s[name]?.isSome = known) : t[name]? = s[name]? := by
  rw [h name]
  rcases back with rfl | absent
  · exact Option.or_of_isSome here
  · rw [absent, Option.or_none]

theorem Happening.LooksBack.covers {final : State} {happening : Happening}
    (back : happening.LooksBack final) : (Likeness.over final).Covers happening := by
  cases happening with
  | lookup name known => exact fun s t overlay here => overlay.getElem?_eq back here
  | invocation name known => exact fun s t overlay here => overlay.getElem?_eq back here
  | expansion depth statements => trivial

/-- If the first pass looks up nothing that is defined only later, the second pass succeeds too,
with the same lines and the same symbols. -/
theorem resolve_backward {limits : Limits} {source : Bytes} {first : List Line} {t : State}
    (one : pass limits none 1 false (statements source) .initial = .ok first t)
    (back : ∀ happening ∈ passLog limits none 1 false (statements source) .initial,
      happening.LooksBack t) :
    ∃ s', pass limits none 2 true (statements source) t = .ok first s' ∧
      s'.symbols = t.symbols ∧ resolve limits none source = .ofResult (.ok first s') := by
  have passed := pass_passes one
  obtain ⟨s', again, holds⟩ := passed.carried (.over t) ⟨limits, none, true⟩ rfl
    (t := t.announced 2 _) (.of_empty t.symbols) (.of_empty t.macros)
    (fun happening member => (back happening member).covers) passed.spent.2
  have two := again.pass_ok
  exact ⟨s', two, holds.symbols.eq_of_domain fun _ => id, resolve_of_passes one two⟩

/-- A name and a macro that are defined again, in and after a block that uses them, and a name and
a macro that are never defined. -/
def redefining : Bytes :=
  Bytes.ofLines (["n set 2", "m macro", "n set n+1", " ds.b n", " endm", " rept n", " m", " endr",
    " ds.b none", " other", "here dc.b 1", " ds.b here", "m macro", " ds.b \\1", " endm", " m n",
    "n set 1"].map Bytes.ofString)

/-- The pass succeeds, with a property of its lines and of the state after it. -/
def succeedsWith (p : List Line → State → Bool) : EStateM.Result Error State (List Line) → Bool
  | .ok lines t => p lines t
  | .error _ _ => false

theorem exists_of_succeedsWith {p : List Line → State → Bool}
    {result : EStateM.Result Error State (List Line)} (h : succeedsWith p result = true) :
    ∃ lines t, result = .ok lines t ∧ p lines t = true := by
  cases result with
  | ok lines t => exact ⟨lines, t, rfl, h⟩
  | error _ _ => cases h

theorem resolve_backward_redefining :
    ∃ first t s', pass .standard none 1 false (statements redefining) .initial = .ok first t ∧
      (∀ happening ∈ passLog .standard none 1 false (statements redefining) .initial,
        happening.LooksBack t) ∧
      first.map Line.bytes = [0, 0, 0, 0, 0, 0, 0, 7, 0, 0, 1, 7, 0, 0, 0, 4, 0] ∧
      pass .standard none 2 true (statements redefining) t = .ok first s' ∧
      s'.symbols = t.symbols := by
  have checked : succeedsWith (fun first t => decide
      ((∀ happening ∈ passLog .standard none 1 false (statements redefining) .initial,
        happening.LooksBack t) ∧
      first.map Line.bytes = [0, 0, 0, 0, 0, 0, 0, 7, 0, 0, 1, 7, 0, 0, 0, 4, 0]))
      (pass .standard none 1 false (statements redefining) .initial) = true := by
    decide +kernel
  obtain ⟨first, t, one, holds⟩ := exists_of_succeedsWith checked
  obtain ⟨back, bytes⟩ := of_decide_eq_true holds
  obtain ⟨s', two, symbols, -⟩ := resolve_backward one back
  exact ⟨first, t, s', one, back, bytes, two, symbols⟩

end Asm68k.Resolver
