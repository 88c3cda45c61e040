import Asm68k.Bytes

/-!
Characters of a byte string. Well-formed UTF-8 sequences read as scalar values; every other byte
stands for itself.
-/

namespace Asm68k

inductive Rune where
  | scalar (c : Char)
  /-- A byte that belongs to no well-formed sequence. -/
  | stray (b : UInt8)
  deriving DecidableEq, Repr

namespace Rune

/-- The six bits that a continuation byte carries. -/
def continuation? (b : UInt8) : Option Nat :=
  if 0x80 ≤ b.toNat ∧ b.toNat < 0xC0 then some (b.toNat - 0x80) else none

/-- The scalar value `n`, unless it is below `least` or a surrogate or too large. -/
def scalar? (least n : Nat) : Option Char :=
  if h : least ≤ n ∧ n.isValidChar then some (Char.ofNatAux n h.2) else none

/-- The scalar value whose encoding starts with `lead`, and how many bytes of `rest` belong to it. -/
def scalarAt? (lead : UInt8) (rest : Bytes) : Option (Char × Nat) :=
  let n := lead.toNat
  if n < 0x80 then (scalar? 0 n).map (·, 0)
  else if n < 0xC0 then none
  else if n < 0xE0 then
    match rest with
    | b₁ :: _ => do
      let x₁ ← continuation? b₁
      return (← scalar? 0x80 ((n - 0xC0) * 64 + x₁), 1)
    | _ => none
  else if n < 0xF0 then
    match rest with
    | b₁ :: b₂ :: _ => do
      let x₁ ← continuation? b₁
      let x₂ ← continuation? b₂
      return (← scalar? 0x800 (((n - 0xE0) * 64 + x₁) * 64 + x₂), 2)
    | _ => none
  else if n < 0xF8 then
    match rest with
    | b₁ :: b₂ :: b₃ :: _ => do
      let x₁ ← continuation? b₁
      let x₂ ← continuation? b₂
      let x₃ ← continuation? b₃
      return (← scalar? 0x10000 ((((n - 0xF0) * 64 + x₁) * 64 + x₂) * 64 + x₃), 3)
    | _ => none
  else none

def ofBytes (text : Bytes) : List Rune := go 0 text
where
  /-- The first argument counts the bytes that belong to the rune read last. -/
  go : Nat → Bytes → List Rune
    | _, [] => []
    | skip + 1, _ :: rest => go skip rest
    | 0, b :: rest =>
      match scalarAt? b rest with
      | some (c, length) => .scalar c :: go length rest
      | none => .stray b :: go 0 rest

def toBytes : Rune → Bytes
  | .scalar c => String.utf8EncodeChar c
  | .stray b => [b]

def isChar (r : Rune) (c : Char) : Bool := r == .scalar c

/-- Whether the rune is a character between `first` and `last`. -/
def isBetween (first last : Char) : Rune → Bool
  | .scalar c => first ≤ c && c ≤ last
  | .stray _ => false

end Rune

end Asm68k
