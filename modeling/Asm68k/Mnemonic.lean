import Asm68k.Rune.Case

/-!
Instruction names. Conditional branches, loops and sets, and the shifts, are families; some of their
members have a second spelling.
-/

namespace Asm68k

/-- A test of the condition codes. -/
inductive Test where
  | cc | cs | eq | ge | gt | hi | le | ls | lt | mi | ne | pl | vc | vs
  deriving DecidableEq, Repr

namespace Test

def all : List Test :=
  [.cc, .cs, .eq, .ge, .gt, .hi, .le, .ls, .lt, .mi, .ne, .pl, .vc, .vs]

def name : Test → String
  | .cc => "CC"
  | .cs => "CS"
  | .eq => "EQ"
  | .ge => "GE"
  | .gt => "GT"
  | .hi => "HI"
  | .le => "LE"
  | .ls => "LS"
  | .lt => "LT"
  | .mi => "MI"
  | .ne => "NE"
  | .pl => "PL"
  | .vc => "VC"
  | .vs => "VS"

end Test

inductive Condition where
  | always
  | never
  | when (test : Test)
  deriving DecidableEq, Repr

namespace Condition

def all : List Condition := [.always, .never] ++ Test.all.map .when

def name : Condition → String
  | .always => "T"
  | .never => "F"
  | .when test => test.name

end Condition

inductive ShiftKind where
  | arithmetic
  | logical
  | rotate
  /-- Rotation through the extend bit. -/
  | rotateExtend
  deriving DecidableEq, Repr

inductive Direction where
  | left
  | right
  deriving DecidableEq, Repr

inductive Mnemonic where
  | abcd | add | adda | addi | addq | addx | clr | cmp | cmpa | cmpi | cmpm | divs | divu | ext
  | muls | mulu | nbcd | neg | negx | sbcd | sub | suba | subi | subq | subx | tas | tst | chk
  | swap | exg | lea | pea | link | unlk | move | movea | movem | movep | moveq
  | and | andi | eor | eori | not | or | ori
  | bchg | bclr | bset | btst
  | bra | bsr | jmp | jsr | nop | reset | rte | rtr | rts | stop | trap | trapv | illegal
  | bcc (test : Test)
  /-- Decrement and branch until a condition holds. -/
  | dbcc (condition : Condition)
  | scc (condition : Condition)
  | shift (kind : ShiftKind) (direction : Direction)
  deriving DecidableEq, Repr

namespace Mnemonic

/-! ### Families -/

def branches : List Mnemonic := Test.all.map .bcc

def loops : List Mnemonic := Condition.all.map .dbcc

def sets : List Mnemonic := Condition.all.map .scc

def shifts : List Mnemonic :=
  [ShiftKind.arithmetic, .logical, .rotate, .rotateExtend].flatMap fun kind =>
    [.shift kind .left, .shift kind .right]

def isBcc : Mnemonic → Bool
  | .bcc _ => true
  | _ => false

def isDbcc : Mnemonic → Bool
  | .dbcc _ => true
  | _ => false

def isScc : Mnemonic → Bool
  | .scc _ => true
  | _ => false

def isShift : Mnemonic → Bool
  | .shift _ _ => true
  | _ => false

/-- Branches with or without a test, and calls with a relative address. -/
def isBranch : Mnemonic → Bool
  | .bra | .bsr | .bcc _ => true
  | _ => false

/-! ### Names -/

def shiftName : ShiftKind → String
  | .arithmetic => "AS"
  | .logical => "LS"
  | .rotate => "RO"
  | .rotateExtend => "ROX"

def directionName : Direction → String
  | .left => "L"
  | .right => "R"

def name : Mnemonic → String
  | .abcd => "ABCD"
  | .add => "ADD"
  | .adda => "ADDA"
  | .addi => "ADDI"
  | .addq => "ADDQ"
  | .addx => "ADDX"
  | .clr => "CLR"
  | .cmp => "CMP"
  | .cmpa => "CMPA"
  | .cmpi => "CMPI"
  | .cmpm => "CMPM"
  | .divs => "DIVS"
  | .divu => "DIVU"
  | .ext => "EXT"
  | .muls => "MULS"
  | .mulu => "MULU"
  | .nbcd => "NBCD"
  | .neg => "NEG"
  | .negx => "NEGX"
  | .sbcd => "SBCD"
  | .sub => "SUB"
  | .suba => "SUBA"
  | .subi => "SUBI"
  | .subq => "SUBQ"
  | .subx => "SUBX"
  | .tas => "TAS"
  | .tst => "TST"
  | .chk => "CHK"
  | .swap => "SWAP"
  | .exg => "EXG"
  | .lea => "LEA"
  | .pea => "PEA"
  | .link => "LINK"
  | .unlk => "UNLK"
  | .move => "MOVE"
  | .movea => "MOVEA"
  | .movem => "MOVEM"
  | .movep => "MOVEP"
  | .moveq => "MOVEQ"
  | .and => "AND"
  | .andi => "ANDI"
  | .eor => "EOR"
  | .eori => "EORI"
  | .not => "NOT"
  | .or => "OR"
  | .ori => "ORI"
  | .bchg => "BCHG"
  | .bclr => "BCLR"
  | .bset => "BSET"
  | .btst => "BTST"
  | .bra => "BRA"
  | .bsr => "BSR"
  | .jmp => "JMP"
  | .jsr => "JSR"
  | .nop => "NOP"
  | .reset => "RESET"
  | .rte => "RTE"
  | .rtr => "RTR"
  | .rts => "RTS"
  | .stop => "STOP"
  | .trap => "TRAP"
  | .trapv => "TRAPV"
  | .illegal => "ILLEGAL"
  | .bcc test => "B" ++ test.name
  | .dbcc condition => "DB" ++ condition.name
  | .scc condition => "S" ++ condition.name
  | .shift kind direction => shiftName kind ++ directionName direction

def text (mnemonic : Mnemonic) : Bytes := Bytes.ofString mnemonic.name

def singles : List Mnemonic :=
  [.abcd, .add, .adda, .addi, .addq, .addx, .clr, .cmp, .cmpa, .cmpi, .cmpm, .divs, .divu, .ext,
    .muls, .mulu, .nbcd, .neg, .negx, .sbcd, .sub, .suba, .subi, .subq, .subx, .tas, .tst, .chk,
    .swap, .exg, .lea, .pea, .link, .unlk, .move, .movea, .movem, .movep, .moveq,
    .and, .andi, .eor, .eori, .not, .or, .ori,
    .bchg, .bclr, .bset, .btst,
    .bra, .bsr, .jmp, .jsr, .nop, .reset, .rte, .rtr, .rts, .stop, .trap, .trapv, .illegal]

def all : List Mnemonic := singles ++ branches ++ loops ++ sets ++ shifts

def aliases : List (String × Mnemonic) :=
  [("BLO", .bcc .cs), ("BHS", .bcc .cc),
    ("DBLO", .dbcc (.when .cs)), ("DBHS", .dbcc (.when .cc)), ("DBRA", .dbcc .never),
    ("SLO", .scc (.when .cs)), ("SHS", .scc (.when .cc))]

/-- Every spelling with the mnemonic it stands for. -/
def spellings : List (Bytes × Mnemonic) :=
  aliases.map (fun (name, mnemonic) => (Bytes.ofString name, mnemonic)) ++
    all.map fun mnemonic => (mnemonic.text, mnemonic)

/-- The mnemonic that a text spells, in either case. -/
def ofText? (text : Bytes) : Option Mnemonic := spellings.lookup text.upper

end Mnemonic

end Asm68k
