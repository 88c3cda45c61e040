import Std.Data.ExtTreeMap
import Asm68k.Decimal
import Asm68k.Listing.Line
import Asm68k.Statement

/-!
What the resolver knows, reports and gives up on.
-/

namespace Asm68k

/-- The values of labels and assigned names. -/
abbrev Symbols := Std.ExtTreeMap Bytes Int64 compare

/-- The bodies of macros, by their names in upper case. -/
abbrev Macros := Std.ExtTreeMap Bytes (List Statement) compare

namespace Resolver

/-! ### Limits -/

/-- How deep expansions may be nested, and how many lines they may give in one pass. -/
structure Limits where
  depth : Nat
  lines : Nat
  deriving DecidableEq, Repr

namespace Limits

def standard : Limits := ⟨64, 262144⟩

/-- The limits that a user asks for; a number that is not positive asks for the standard. -/
def ofRequest (depth lines : Int) : Limits :=
  ⟨if depth ≤ 0 then standard.depth else depth.toNat,
    if lines ≤ 0 then standard.lines else lines.toNat⟩

end Limits

/-- How deep the expansions of a pass were nested, and how many lines they gave. -/
structure Usage where
  depth : Nat
  lines : Nat
  deriving DecidableEq, Repr

namespace Usage

def zero : Usage := ⟨0, 0⟩

/-- Adds an expansion at the given depth; an empty one counts as a line. -/
def add (usage : Usage) (depth lines : Nat) : Usage :=
  ⟨max usage.depth depth, usage.lines + max lines 1⟩

end Usage

/-! ### Failures -/

inductive Failure where
  | nestingTooDeep (limit : Nat)
  | tooManyLines (limit : Nat)
  | canceled
  deriving DecidableEq, Repr

def Failure.message : Failure → Bytes
  | .nestingTooDeep limit =>
    Bytes.ofString "macro or repeat nesting too deep: limit is " ++ Decimal.ofNat limit
  | .tooManyLines limit =>
    Bytes.ofString "too many expanded lines: limit is " ++ Decimal.ofNat limit
  | .canceled => Bytes.ofString "context canceled"

inductive Error where
  /-- Canceled before a pass began. -/
  | beforePass (failure : Failure)
  | duringPass (number : Nat) (failure : Failure)
  | noAssembler
  deriving DecidableEq, Repr

namespace Error

def failure? : Error → Option Failure
  | .beforePass failure | .duringPass _ failure => some failure
  | .noAssembler => none

def message : Error → Bytes
  | .beforePass failure => failure.message
  | .duringPass number failure =>
    Bytes.ofString "resolving pass " ++ Decimal.ofNat number ++ Bytes.ofString ": " ++
      failure.message
  | .noAssembler => Bytes.ofString "assembler is nil"

end Error

/-! ### Reports -/

/-- What the resolver reports on the way. -/
inductive Event where
  | pass (number statements : Nat)
  | macroBegun (name : Bytes)
  | macroUnclosed (name : Bytes)
  | macroUndefined (name : Bytes)
  | blockRepeated (count : Int64) (statements : Nat)
  | blockUnclosed (line : Bytes)
  deriving DecidableEq, Repr

namespace Event

def message : Event → String
  | .pass _ _ => "Resolver pass"
  | .macroBegun _ => "Macro definition"
  | .macroUnclosed _ => "Macro definition without ENDM"
  | .macroUndefined _ => "Undefined macro"
  | .blockRepeated _ _ => "Repeat block"
  | .blockUnclosed _ => "Repeat block without ENDR"

/-- An undefined macro is worth a warning; the other reports are for finding faults. -/
def isWarning : Event → Bool
  | .macroUndefined _ => true
  | _ => false

end Event

/-! ### State -/

structure State where
  symbols : Symbols
  macros : Macros
  /-- The current section is reserved memory. -/
  bss : Bool
  usage : Usage
  /-- How often it was asked whether to go on. -/
  polls : Nat
  /-- The reports, the newest first. -/
  events : List Event

def State.initial : State := ⟨∅, ∅, false, .zero, 0, []⟩

/-- What does not change during a pass. -/
structure Settings where
  limits : Limits
  /-- How often the resolver may ask before it is told to stop. -/
  patience : Option Nat
  isLastPass : Bool

/-- Steps of the resolver. The state outlives a failure. -/
abbrev Resolution := EStateM Failure State

namespace Resolution

def report (event : Event) : Resolution Unit :=
  modify fun s => { s with events := event :: s.events }

def define (name : Bytes) (value : Int64) : Resolution Unit :=
  modify fun s => { s with symbols := s.symbols.insert name value }

def defineMacro (name : Bytes) (body : List Statement) : Resolution Unit :=
  modify fun s => { s with macros := s.macros.insert name body }

/-- Whether the resolver is told to stop when it asks after `polls` other times. -/
def isCanceled (patience : Option Nat) (polls : Nat) : Bool :=
  match patience with
  | none => false
  | some patience => patience ≤ polls

def poll (settings : Settings) : Resolution Unit := do
  let s ← get
  set { s with polls := s.polls + 1 }
  if isCanceled settings.patience s.polls then throw .canceled

/-- Charges an expansion of some lines at the given depth. -/
def charge (settings : Settings) (depth lines : Nat) : Resolution Unit := do
  let s ← get
  let usage := s.usage.add depth lines
  set { s with usage }
  if settings.limits.lines < usage.lines then throw (.tooManyLines settings.limits.lines)

end Resolution

end Resolver

end Asm68k
