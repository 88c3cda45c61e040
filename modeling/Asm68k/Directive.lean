import Asm68k.Rune.Case

/-!
Assembler directives: those that emit data, assign values, switch sections or frame macros and
repeated blocks, and those that change neither sizes nor times.
-/

namespace Asm68k

/-- The spellings of an assignment to the label of a line. -/
inductive Assignment where
  | equals
  | equ
  | fequ
  | set
  deriving DecidableEq, Repr

inductive Segment where
  | code
  | data
  /-- Memory that is reserved and not stored. -/
  | bss
  deriving DecidableEq, Repr

/-- The memory a segment is loaded into. -/
inductive Memory where
  | any
  | chip
  | fast
  deriving DecidableEq, Repr

inductive Directive where
  /-- Data of the size given. -/
  | dc
  | db
  | dw
  | dl
  | dcb
  | ds
  | assign (spelling : Assignment)
  /-- Starts the section that the operands name. -/
  | namedSection
  | segment (kind : Segment) (memory : Memory)
  | beginMacro
  | endMacro
  | beginRepeat
  | endRepeat
  /-- A directive without effect on sizes and times. -/
  | inert (name : String)
  deriving DecidableEq, Repr

namespace Directive

def inertNames : List String :=
  ["CSEG", "DSEG", "INCLUDE", "INCDIR", "INCBIN", "IFEQ", "IFNE", "IFGT", "IFGE", "IFLT", "IFLE",
    "IFB", "IFNB", "IFC", "IFNC", "IFD", "IFND", "IFMACROD", "IFMACROND", "ELSE", "END", "ENDIF",
    "OPT", "ALIGN", "CARGS", "CLRFO", "CLRSO", "CNOP", "COMM", "COMMENT", "ECHO", "EINLINE", "ENDC",
    "ENDF", "ENDP", "EREM", "EVEN", "FAIL", "FPU", "IDNT", "INLINE", "JUMPPTR", "LIST", "LLEN",
    "LOAD", "MACHINE", "MEXIT", "MMU", "NOLIST", "NOPAGE", "NREF", "ODD", "OFFSET", "OPWORD", "ORG",
    "OUTPUT", "PAGE", "PLEN", "PRINTT", "PRINTV", "PUBLIC", "RECORD", "REM", "RORG", "RSRESET",
    "RSSET", "SETFO", "SETSO", "SPC", "TEXT", "TTL", "WEAK", "XDEF", "XREF"]

def assignmentName : Assignment → String
  | .equals => "="
  | .equ => "EQU"
  | .fequ => "FEQU"
  | .set => "SET"

def segmentName : Segment → String
  | .code => "CODE"
  | .data => "DATA"
  | .bss => "BSS"

def memorySuffix : Memory → String
  | .any => ""
  | .chip => "_C"
  | .fast => "_F"

def name : Directive → String
  | .dc => "DC"
  | .db => "DB"
  | .dw => "DW"
  | .dl => "DL"
  | .dcb => "DCB"
  | .ds => "DS"
  | .assign spelling => assignmentName spelling
  | .namedSection => "SECTION"
  | .segment kind memory => segmentName kind ++ memorySuffix memory
  | .beginMacro => "MACRO"
  | .endMacro => "ENDM"
  | .beginRepeat => "REPT"
  | .endRepeat => "ENDR"
  | .inert name => name

def text (directive : Directive) : Bytes := Bytes.ofString directive.name

def isAssignment : Directive → Bool
  | .assign _ => true
  | _ => false

def isSection : Directive → Bool
  | .namedSection | .segment _ _ => true
  | _ => false

/-! ### Lookup -/

def segments : List Directive :=
  [Segment.bss, .code, .data].flatMap fun kind =>
    [.segment kind .any, .segment kind .chip, .segment kind .fast]

def all : List Directive :=
  [.dc, .dcb, .ds, .db, .dw, .dl, .namedSection] ++ segments ++
    [.assign .equals, .assign .equ, .assign .fequ, .assign .set,
      .beginMacro, .endMacro, .beginRepeat, .endRepeat] ++
    inertNames.map .inert

/-- Every spelling with the directive it stands for. -/
def spellings : List (Bytes × Directive) :=
  (Bytes.ofString "BLK", .dcb) :: all.map fun directive => (directive.text, directive)

/-- The directive that a text spells, in either case. -/
def ofText? (text : Bytes) : Option Directive := spellings.lookup text.upper

end Directive

end Asm68k
