import Asm68k.Mode
import Asm68k.Pattern

/-!
The addressing mode of an operand text. The forms are tried in order and the first that fits
decides, so a form may be wide where an earlier one has taken the special cases away.
-/

namespace Asm68k

namespace Mode

/-- How a form has to lie in the operand text. -/
inductive Placement where
  | whole
  | front
  | back
  | anywhere
  deriving DecidableEq, Repr

structure Form where
  placement : Placement
  pattern : Pattern

def Form.fits (form : Form) (text : List Rune) : Bool :=
  match form.placement with
  | .whole => form.pattern.fitsWhole text
  | .front => form.pattern.fitsFront text
  | .back => form.pattern.endsIn text
  | .anywhere => form.pattern.occursIn text

/-! ### Parts of operands -/

open Pattern

/-- A digit that can number a register. -/
def registerDigit : Pattern := .one (·.isBetween '0' '7')

def dataRegister : Pattern := .seq (letter 'd') registerDigit

def addressRegister : Pattern := .alt (.seq (letter 'a') registerDigit) (word "sp")

def anyRegister : Pattern :=
  .alt (.seq (.one fun r => foldsTo 'a' r || foldsTo 'd' r) registerDigit) (word "sp")

def blanks : Pattern := .many isBlank

def opening : Pattern := .seq (char '(') blanks

def closing : Pattern := .seq blanks (char ')')

def comma : Pattern := chain [blanks, char ',', blanks]

/-- A register with an optional size. -/
def index : Pattern :=
  .seq anyRegister (.alt .nothing (.seq (char '.') (.alt (letter 'w') (letter 'l'))))

/-- A displacement in front of a comma: word characters and minus signs. -/
def displacement : Pattern :=
  let accepts := fun r : Rune => r.isChar '-' || isWord r
  .seq (.one accepts) (.many accepts)

def programCounter : Pattern := word "pc"

/-! ### Forms -/

/-- The forms in the order they are tried. Indexed operands come before displaced ones, whose forms
they also fit. -/
def forms : List (Mode × Form) :=
  [(.dn, ⟨.whole, dataRegister⟩),
    (.an, ⟨.whole, addressRegister⟩),
    (.indirect, ⟨.whole, chain [opening, addressRegister, closing]⟩),
    (.postIncrement, ⟨.whole, chain [opening, addressRegister, closing, char '+']⟩),
    (.preDecrement, ⟨.whole, chain [char '-', opening, addressRegister, closing]⟩),
    (.indexed, ⟨.anywhere, chain [addressRegister, comma, index, closing]⟩),
    (.displaced, ⟨.anywhere, chain [.one isWord, opening, addressRegister]⟩),
    (.displaced, ⟨.back, chain [opening, displacement, comma, addressRegister, closing]⟩),
    (.pcIndexed, ⟨.anywhere, chain [programCounter, comma, index, closing]⟩),
    (.pcDisplaced, ⟨.anywhere, chain [.one isWord, opening, programCounter]⟩),
    (.pcDisplaced, ⟨.back, chain [opening, displacement, comma, programCounter, closing]⟩),
    (.immediate, ⟨.front, .seq (char '#') (.one fun r => !r.isChar '\n')⟩),
    (.registers, ⟨.anywhere,
      chain [anyRegister, .one fun r => r.isChar '/' || r.isChar '-', anyRegister]⟩),
    (.ccr, ⟨.whole, word "ccr"⟩),
    (.sr, ⟨.whole, word "sr"⟩),
    (.usp, ⟨.whole, word "usp"⟩),
    (.absWord, ⟨.back, .seq (char '.') (letter 'w')⟩)]

/-- The mode of an operand. What fits no form is an absolute address of two words. -/
def ofOperand (text : Bytes) : Mode :=
  let runes := Rune.ofBytes text
  match forms.find? (·.2.fits runes) with
  | some (mode, _) => mode
  | none => .absLong

end Mode

end Asm68k
