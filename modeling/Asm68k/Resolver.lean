import Asm68k.Resolver.Frame

/-!
Sizes and times of a whole source. Two passes are made, so that the second knows the labels and
macros that are defined after their use.
-/

namespace Asm68k.Resolver

open Resolution

/-- Resolves an expansion when `levels` more levels are allowed. -/
def expandAt (settings : Settings) : (levels : Nat) → Expander
  | 0, _, _ => do
    poll settings
    throw (.nestingTooDeep settings.limits.depth)
  | levels + 1, address, statements => do
    poll settings
    charge settings (settings.limits.depth - levels) statements.length
    resolveFrom settings (expandAt settings levels) ⟨address, .nothing⟩ [] statements

/-- Resolves the source once, with the symbols and macros known so far. -/
def resolveSource (settings : Settings) (statements : List Statement) : Resolution (List Line) := do
  modify fun s => { s with bss := false, usage := .zero }
  resolveFrom settings (expandAt settings settings.limits.depth) ⟨0, .nothing⟩ [] statements

def pass (limits : Limits) (patience : Option Nat) (number : Nat) (isLastPass : Bool)
    (statements : List Statement) : EStateM Error State (List Line) := do
  let settings : Settings := { limits, patience, isLastPass }
  EStateM.adaptExcept .beforePass do
    report (.pass number statements.length)
    poll settings
  EStateM.adaptExcept (.duringPass number) (resolveSource settings statements)

/-- The lines of the second pass. -/
def passes (limits : Limits) (patience : Option Nat) (statements : List Statement) :
    EStateM Error State (List Line) := do
  let _ ← pass limits patience 1 false statements
  pass limits patience 2 true statements

/-- What comes of a source: its lines or an error, the symbols that are known then, the reports in
order, and how often it was asked whether to go on. -/
structure Outcome where
  result : Except Error (List Line)
  symbols : Symbols
  events : List Event
  polls : Nat

namespace Outcome

def ofResult : EStateM.Result Error State (List Line) → Outcome
  | .ok lines s => ⟨.ok lines, s.symbols, s.events.reverse, s.polls⟩
  | .error error s => ⟨.error error, s.symbols, s.events.reverse, s.polls⟩

/-- The outcome when there is nothing to resolve with. -/
def withoutAssembler : Outcome := ⟨.error .noAssembler, ∅, [], 0⟩

end Outcome

def statements (source : Bytes) : List Statement := source.lines.map Statement.ofLine

/-- Resolves a source. With `patience` the work is canceled once it has asked that often. -/
def resolve (limits : Limits) (patience : Option Nat) (source : Bytes) : Outcome :=
  .ofResult ((passes limits patience (statements source)).run .initial)

end Asm68k.Resolver
