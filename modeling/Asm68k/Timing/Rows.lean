import Asm68k.Timing.Row

/-!
The execution times of all instructions. Where rows overlap the later one counts.
-/

namespace Asm68k.Timing

/-! ### Sizes that rows are for -/

def unsized : List (Option Size) := [none]

def byteOnly : List (Option Size) := [some .byte]

def wordOnly : List (Option Size) := [some .word]

def longOnly : List (Option Size) := [some .long]

def byteWord : List (Option Size) := [some .byte, some .word]

def wordLong : List (Option Size) := [some .word, some .long]

def anySize : List (Option Size) := [some .byte, some .word, some .long]

/-! ### Moves -/

def moveTargets : List Mode :=
  [.dn, .an, .indirect, .postIncrement, .preDecrement, .displaced, .indexed, .absWord, .absLong]

/-- The time a move spends on its target. -/
def writeTime (long : Bool) : Mode → Timing
  | .indirect | .postIncrement | .preDecrement => if long then ⟨8, 0, 2⟩ else ⟨4, 0, 1⟩
  | .displaced | .absWord => if long then ⟨12, 1, 2⟩ else ⟨8, 1, 1⟩
  | .indexed => if long then ⟨14, 1, 2⟩ else ⟨10, 1, 1⟩
  | .absLong => if long then ⟨16, 2, 2⟩ else ⟨12, 2, 1⟩
  | _ => zero

/-- A move fetches its opcode and its source and writes its target. -/
def moveRow (long : Bool) (source target : Mode) : Row :=
  { mnemonics := if target = .an then [.move, .movea] else [.move]
    sizes := if long then longOnly else byteWord
    operands := [.only source, .only target]
    base := [⟨4, 1, 0⟩ + addressTime long source + writeTime long target]
    perUnit := none }

def moveRows : List Row :=
  [false, true].flatMap fun long =>
    Mode.effective.flatMap fun source => moveTargets.map (moveRow long source)

/-! ### Other instructions -/

/-- Arithmetic and logic on effective addresses. -/
def standardRows : List Row :=
  [⟨[.add, .sub], byteWord, [.effective, .an], [⟨8, 1, 0⟩], none⟩,
    ⟨[.adda, .suba], wordOnly, [.effective, .an], [⟨8, 1, 0⟩], none⟩,
    ⟨[.add, .sub], byteWord, [.effective, .dn], [⟨4, 1, 0⟩], none⟩,
    ⟨[.add, .sub], byteWord, [.dn, .memory], [⟨8, 1, 1⟩], none⟩,
    ⟨[.add, .adda, .sub, .suba], longOnly, [.memory, .an], [⟨6, 1, 0⟩], none⟩,
    ⟨[.add, .sub], longOnly, [.memory, .dn], [⟨6, 1, 0⟩], none⟩,
    ⟨[.add, .adda, .sub, .suba], longOnly, [.direct, .an], [⟨8, 1, 0⟩], none⟩,
    ⟨[.add, .sub], longOnly, [.direct, .dn], [⟨8, 1, 0⟩], none⟩,
    ⟨[.add, .sub], longOnly, [.dn, .memory], [⟨12, 1, 2⟩], none⟩,
    ⟨[.and, .or], byteWord, [.effective, .dn], [⟨4, 1, 0⟩], none⟩,
    ⟨[.and, .or], byteWord, [.dn, .memory], [⟨8, 1, 1⟩], none⟩,
    ⟨[.and, .or], longOnly, [.memory, .dn], [⟨6, 1, 0⟩], none⟩,
    ⟨[.and, .or], longOnly, [.direct, .dn], [⟨8, 1, 0⟩], none⟩,
    ⟨[.and, .or], longOnly, [.dn, .memory], [⟨12, 1, 2⟩], none⟩,
    ⟨[.eor], byteWord, [.dn, .dn], [⟨4, 1, 0⟩], none⟩,
    ⟨[.eor], byteWord, [.dn, .memory], [⟨8, 1, 1⟩], none⟩,
    ⟨[.eor], longOnly, [.dn, .dn], [⟨8, 1, 0⟩], none⟩,
    ⟨[.eor], longOnly, [.dn, .memory], [⟨12, 1, 2⟩], none⟩,
    ⟨[.cmp], byteWord, [.effective, .an], [⟨6, 1, 0⟩], none⟩,
    ⟨[.cmpa], wordOnly, [.effective, .an], [⟨6, 1, 0⟩], none⟩,
    ⟨[.cmp, .cmpa], longOnly, [.effective, .an], [⟨6, 1, 0⟩], none⟩,
    ⟨[.cmp], longOnly, [.effective, .dn], [⟨6, 1, 0⟩], none⟩,
    ⟨[.cmp], byteWord, [.effective, .dn], [⟨4, 1, 0⟩], none⟩,
    ⟨[.divs], wordOnly, [.effective, .dn], [⟨158, 1, 0⟩], none⟩,
    ⟨[.divu], wordOnly, [.effective, .dn], [⟨140, 1, 0⟩], none⟩,
    ⟨[.muls, .mulu], wordOnly, [.effective, .dn], [⟨38, 1, 0⟩], some ⟨2, 0, 0⟩⟩]

def immediateRows : List Row :=
  [⟨[.add, .addi, .sub, .subi], byteWord, [.immediate, .dn], [⟨8, 2, 0⟩], none⟩,
    ⟨[.add, .addi, .sub, .subi], byteWord, [.immediate, .memory], [⟨12, 2, 1⟩], none⟩,
    ⟨[.add, .addi, .sub, .subi], longOnly, [.immediate, .dn], [⟨16, 3, 0⟩], none⟩,
    ⟨[.add, .addi, .sub, .subi], longOnly, [.immediate, .memory], [⟨20, 3, 2⟩], none⟩,
    ⟨[.addq, .subq], byteWord, [.immediate, .dn], [⟨4, 1, 0⟩], none⟩,
    ⟨[.addq, .subq], byteWord, [.immediate, .an], [⟨8, 1, 0⟩], none⟩,
    ⟨[.addq, .subq], byteWord, [.immediate, .memory], [⟨8, 1, 1⟩], none⟩,
    ⟨[.addq, .subq], longOnly, [.immediate, .dn], [⟨8, 1, 0⟩], none⟩,
    ⟨[.addq, .subq], longOnly, [.immediate, .an], [⟨8, 1, 0⟩], none⟩,
    ⟨[.addq, .subq], longOnly, [.immediate, .memory], [⟨12, 1, 2⟩], none⟩,
    ⟨[.and, .andi, .or, .ori], byteWord, [.immediate, .dn], [⟨8, 2, 0⟩], none⟩,
    ⟨[.and, .andi, .or, .ori], byteWord, [.immediate, .memory], [⟨12, 2, 1⟩], none⟩,
    ⟨[.and, .andi, .or, .ori], longOnly, [.immediate, .dn], [⟨16, 3, 0⟩], none⟩,
    ⟨[.and, .andi, .or, .ori], longOnly, [.immediate, .memory], [⟨20, 3, 2⟩], none⟩,
    ⟨[.cmp, .cmpi], byteWord, [.immediate, .dn], [⟨8, 2, 0⟩], none⟩,
    ⟨[.cmp, .cmpi], byteWord, [.immediate, .memory], [⟨8, 2, 0⟩], none⟩,
    ⟨[.cmp, .cmpi], longOnly, [.immediate, .dn], [⟨14, 3, 0⟩], none⟩,
    ⟨[.cmp, .cmpi], longOnly, [.immediate, .memory], [⟨12, 3, 0⟩], none⟩,
    ⟨[.eor, .eori], byteWord, [.immediate, .dn], [⟨8, 2, 0⟩], none⟩,
    ⟨[.eor, .eori], byteWord, [.immediate, .memory], [⟨12, 2, 1⟩], none⟩,
    ⟨[.eor, .eori], longOnly, [.immediate, .dn], [⟨16, 3, 0⟩], none⟩,
    ⟨[.eor, .eori], longOnly, [.immediate, .memory], [⟨20, 3, 2⟩], none⟩,
    ⟨[.moveq], longOnly, [.immediate, .dn], [⟨4, 1, 0⟩], none⟩]

def singleOperandRows : List Row :=
  [⟨[.clr, .not, .neg], byteWord, [.dn], [⟨4, 1, 0⟩], none⟩,
    ⟨[.clr, .not, .neg], byteWord, [.memory], [⟨8, 1, 1⟩], none⟩,
    ⟨[.clr, .not, .neg], longOnly, [.dn], [⟨6, 1, 0⟩], none⟩,
    ⟨[.clr, .not, .neg], longOnly, [.memory], [⟨12, 1, 2⟩], none⟩,
    ⟨[.nbcd], byteOnly, [.dn], [⟨6, 1, 0⟩], none⟩,
    ⟨[.nbcd], byteOnly, [.memory], [⟨8, 1, 1⟩], none⟩,
    ⟨[.negx], byteWord, [.dn], [⟨4, 1, 0⟩], none⟩,
    ⟨[.negx], byteWord, [.memory], [⟨8, 1, 1⟩], none⟩,
    ⟨[.negx], longOnly, [.dn], [⟨6, 1, 0⟩], none⟩,
    ⟨[.negx], longOnly, [.memory], [⟨12, 1, 2⟩], none⟩,
    ⟨Mnemonic.sets, byteOnly, [.dn], [⟨4, 1, 0⟩, ⟨6, 1, 0⟩], none⟩,
    ⟨Mnemonic.sets, byteOnly, [.memory], [⟨8, 1, 1⟩, ⟨8, 1, 1⟩], none⟩,
    ⟨[.tas], byteOnly, [.dn], [⟨4, 1, 0⟩], none⟩,
    ⟨[.tas], byteOnly, [.memory], [⟨10, 1, 1⟩], none⟩,
    ⟨[.tst], anySize, [.dn], [⟨4, 1, 0⟩], none⟩,
    ⟨[.tst], anySize, [.memory], [⟨4, 1, 0⟩], none⟩]

def shiftRows : List Row :=
  [⟨Mnemonic.shifts, byteWord, [.immediate, .dn], [⟨6, 1, 0⟩], some ⟨2, 0, 0⟩⟩,
    ⟨Mnemonic.shifts, byteWord, [.immediate, .memory], [⟨8, 1, 1⟩], some ⟨2, 0, 0⟩⟩,
    ⟨Mnemonic.shifts, byteWord, [.dn, .dn], [⟨6, 1, 0⟩], some ⟨2, 0, 0⟩⟩,
    ⟨Mnemonic.shifts, byteWord, [.dn, .memory], [⟨8, 1, 1⟩], some ⟨2, 0, 0⟩⟩,
    ⟨Mnemonic.shifts, byteWord, [.dn], [⟨8, 1, 0⟩], none⟩,
    ⟨Mnemonic.shifts, byteWord, [.memory], [⟨8, 1, 1⟩], none⟩,
    ⟨Mnemonic.shifts, longOnly, [.immediate, .dn], [⟨8, 1, 0⟩], some ⟨2, 0, 0⟩⟩,
    ⟨Mnemonic.shifts, longOnly, [.dn], [⟨10, 1, 0⟩], none⟩,
    ⟨Mnemonic.shifts, longOnly, [.dn, .dn], [⟨8, 1, 0⟩], some ⟨2, 0, 0⟩⟩]

def bitRows : List Row :=
  [⟨[.bchg, .bset, .bclr], byteOnly, [.dn, .memory], [⟨8, 1, 1⟩], none⟩,
    ⟨[.bchg, .bset, .bclr], byteOnly, [.immediate, .memory], [⟨12, 2, 1⟩], none⟩,
    ⟨[.bchg, .bset], longOnly, [.dn, .dn], [⟨8, 1, 0⟩], none⟩,
    ⟨[.bchg, .bset], longOnly, [.immediate, .dn], [⟨12, 2, 0⟩], none⟩,
    ⟨[.bclr], longOnly, [.dn, .dn], [⟨10, 1, 0⟩], none⟩,
    ⟨[.bclr], longOnly, [.immediate, .dn], [⟨14, 2, 0⟩], none⟩,
    ⟨[.btst], byteOnly, [.dn, .memory], [⟨4, 1, 0⟩], none⟩,
    ⟨[.btst], byteOnly, [.immediate, .memory], [⟨8, 2, 0⟩], none⟩,
    ⟨[.btst], byteOnly, [.dn, .immediate], [⟨10, 2, 0⟩], none⟩,
    ⟨[.btst], longOnly, [.dn, .dn], [⟨6, 1, 0⟩], none⟩,
    ⟨[.btst], longOnly, [.immediate, .dn], [⟨10, 2, 0⟩], none⟩]

/-- Branches: taken, not taken, expired. -/
def branchRows : List Row :=
  [⟨Mnemonic.branches, byteOnly, [.absLong], [⟨10, 2, 0⟩, ⟨8, 1, 0⟩], none⟩,
    ⟨Mnemonic.branches, wordOnly, [.absLong], [⟨10, 2, 0⟩, ⟨12, 2, 0⟩], none⟩,
    ⟨[.bra], byteWord, [.absLong], [⟨10, 2, 0⟩], none⟩,
    ⟨[.bsr], byteWord, [.absLong], [⟨18, 2, 2⟩], none⟩,
    ⟨Mnemonic.loops, wordOnly, [.dn, .absLong], [⟨10, 2, 0⟩, ⟨12, 2, 0⟩, ⟨14, 3, 0⟩], none⟩]

def addressRows : List Row :=
  [⟨[.jmp], unsized, [.indirect], [⟨8, 2, 0⟩], none⟩,
    ⟨[.jmp], unsized, [.displaced], [⟨10, 2, 0⟩], none⟩,
    ⟨[.jmp], unsized, [.indexed], [⟨14, 2, 0⟩], none⟩,
    ⟨[.jmp], unsized, [.absWord], [⟨10, 2, 0⟩], none⟩,
    ⟨[.jmp], unsized, [.absLong], [⟨12, 3, 0⟩], none⟩,
    ⟨[.jmp], unsized, [.pcDisplaced], [⟨10, 2, 0⟩], none⟩,
    ⟨[.jmp], unsized, [.pcIndexed], [⟨14, 2, 0⟩], none⟩,
    ⟨[.jsr], unsized, [.indirect], [⟨16, 2, 2⟩], none⟩,
    ⟨[.jsr], unsized, [.displaced], [⟨18, 2, 2⟩], none⟩,
    ⟨[.jsr], unsized, [.indexed], [⟨22, 2, 2⟩], none⟩,
    ⟨[.jsr], unsized, [.absWord], [⟨18, 2, 2⟩], none⟩,
    ⟨[.jsr], unsized, [.absLong], [⟨20, 3, 2⟩], none⟩,
    ⟨[.jsr], unsized, [.pcDisplaced], [⟨18, 2, 2⟩], none⟩,
    ⟨[.jsr], unsized, [.pcIndexed], [⟨22, 2, 2⟩], none⟩,
    ⟨[.lea], longOnly, [.indirect, .an], [⟨4, 1, 0⟩], none⟩,
    ⟨[.lea], longOnly, [.displaced, .an], [⟨8, 2, 0⟩], none⟩,
    ⟨[.lea], longOnly, [.indexed, .an], [⟨12, 2, 0⟩], none⟩,
    ⟨[.lea], longOnly, [.absWord, .an], [⟨8, 2, 0⟩], none⟩,
    ⟨[.lea], longOnly, [.absLong, .an], [⟨12, 3, 0⟩], none⟩,
    ⟨[.lea], longOnly, [.pcDisplaced, .an], [⟨8, 2, 0⟩], none⟩,
    ⟨[.lea], longOnly, [.pcIndexed, .an], [⟨12, 2, 0⟩], none⟩,
    ⟨[.pea], longOnly, [.indirect], [⟨12, 1, 2⟩], none⟩,
    ⟨[.pea], longOnly, [.displaced], [⟨16, 2, 2⟩], none⟩,
    ⟨[.pea], longOnly, [.indexed], [⟨20, 2, 2⟩], none⟩,
    ⟨[.pea], longOnly, [.absWord], [⟨16, 2, 2⟩], none⟩,
    ⟨[.pea], longOnly, [.absLong], [⟨20, 3, 2⟩], none⟩,
    ⟨[.pea], longOnly, [.pcDisplaced], [⟨16, 2, 2⟩], none⟩,
    ⟨[.pea], longOnly, [.pcIndexed], [⟨20, 2, 2⟩], none⟩]

/-- Several registers from memory. -/
def loadRows : List Row :=
  [⟨[.movem], wordOnly, [.indirect, .registers], [⟨12, 3, 0⟩], some ⟨4, 1, 0⟩⟩,
    ⟨[.movem], wordOnly, [.postIncrement, .registers], [⟨12, 3, 0⟩], some ⟨4, 1, 0⟩⟩,
    ⟨[.movem], wordOnly, [.displaced, .registers], [⟨16, 4, 0⟩], some ⟨4, 1, 0⟩⟩,
    ⟨[.movem], wordOnly, [.indexed, .registers], [⟨18, 4, 0⟩], some ⟨4, 1, 0⟩⟩,
    ⟨[.movem], wordOnly, [.absWord, .registers], [⟨16, 4, 0⟩], some ⟨4, 1, 0⟩⟩,
    ⟨[.movem], wordOnly, [.absLong, .registers], [⟨20, 5, 0⟩], some ⟨4, 1, 0⟩⟩,
    ⟨[.movem], wordOnly, [.pcDisplaced, .registers], [⟨16, 4, 0⟩], some ⟨4, 1, 0⟩⟩,
    ⟨[.movem], wordOnly, [.pcIndexed, .registers], [⟨18, 4, 0⟩], some ⟨4, 1, 0⟩⟩,
    ⟨[.movem], longOnly, [.indirect, .registers], [⟨12, 3, 0⟩], some ⟨8, 2, 0⟩⟩,
    ⟨[.movem], longOnly, [.postIncrement, .registers], [⟨12, 3, 0⟩], some ⟨8, 1, 0⟩⟩,
    ⟨[.movem], longOnly, [.displaced, .registers], [⟨16, 4, 0⟩], some ⟨8, 2, 0⟩⟩,
    ⟨[.movem], longOnly, [.indexed, .registers], [⟨18, 4, 0⟩], some ⟨8, 2, 0⟩⟩,
    ⟨[.movem], longOnly, [.absWord, .registers], [⟨16, 4, 0⟩], some ⟨8, 2, 0⟩⟩,
    ⟨[.movem], longOnly, [.absLong, .registers], [⟨20, 5, 0⟩], some ⟨8, 2, 0⟩⟩,
    ⟨[.movem], longOnly, [.pcDisplaced, .registers], [⟨16, 4, 0⟩], some ⟨8, 2, 0⟩⟩,
    ⟨[.movem], longOnly, [.pcIndexed, .registers], [⟨18, 4, 0⟩], some ⟨8, 2, 0⟩⟩]

/-- Several registers to memory. -/
def storeRows : List Row :=
  [⟨[.movem], wordOnly, [.registers, .indirect], [⟨8, 2, 0⟩], some ⟨4, 0, 1⟩⟩,
    ⟨[.movem], wordOnly, [.registers, .preDecrement], [⟨8, 2, 0⟩], some ⟨4, 0, 1⟩⟩,
    ⟨[.movem], wordOnly, [.registers, .displaced], [⟨12, 3, 0⟩], some ⟨4, 0, 1⟩⟩,
    ⟨[.movem], wordOnly, [.registers, .indexed], [⟨14, 3, 0⟩], some ⟨4, 0, 1⟩⟩,
    ⟨[.movem], wordOnly, [.registers, .absWord], [⟨12, 3, 0⟩], some ⟨4, 0, 1⟩⟩,
    ⟨[.movem], wordOnly, [.registers, .absLong], [⟨16, 4, 0⟩], some ⟨4, 0, 1⟩⟩,
    ⟨[.movem], longOnly, [.registers, .indirect], [⟨8, 2, 0⟩], some ⟨8, 0, 2⟩⟩,
    ⟨[.movem], longOnly, [.registers, .preDecrement], [⟨8, 2, 0⟩], some ⟨8, 0, 2⟩⟩,
    ⟨[.movem], longOnly, [.registers, .displaced], [⟨12, 3, 0⟩], some ⟨8, 0, 2⟩⟩,
    ⟨[.movem], longOnly, [.registers, .indexed], [⟨14, 3, 0⟩], some ⟨8, 0, 2⟩⟩,
    ⟨[.movem], longOnly, [.registers, .absWord], [⟨12, 3, 0⟩], some ⟨8, 0, 2⟩⟩,
    ⟨[.movem], longOnly, [.registers, .absLong], [⟨16, 4, 0⟩], some ⟨8, 0, 2⟩⟩]

/-- Arithmetic on numbers of several words. -/
def multiprecisionRows : List Row :=
  [⟨[.addx, .subx], byteWord, [.dn, .dn], [⟨4, 1, 0⟩], none⟩,
    ⟨[.addx, .subx], byteWord, [.preDecrement, .preDecrement], [⟨18, 3, 1⟩], none⟩,
    ⟨[.addx, .subx], longOnly, [.dn, .dn], [⟨8, 1, 0⟩], none⟩,
    ⟨[.addx, .subx], longOnly, [.preDecrement, .preDecrement], [⟨30, 5, 2⟩], none⟩,
    ⟨[.cmpm], byteWord, [.postIncrement, .postIncrement], [⟨12, 3, 0⟩], none⟩,
    ⟨[.cmpm], longOnly, [.postIncrement, .postIncrement], [⟨20, 5, 0⟩], none⟩,
    ⟨[.abcd, .sbcd], byteOnly, [.dn, .dn], [⟨6, 1, 0⟩], none⟩,
    ⟨[.abcd, .sbcd], byteOnly, [.preDecrement, .preDecrement], [⟨18, 3, 1⟩], none⟩]

/-- Everything else; a bounds check may trap above or below. -/
def miscellaneousRows : List Row :=
  [⟨[.chk], wordLong, [.effective, .dn], [⟨10, 1, 0⟩, ⟨38, 5, 3⟩, ⟨40, 5, 3⟩], none⟩,
    ⟨[.exg], longOnly, [.dn, .dn], [⟨6, 1, 0⟩], none⟩,
    ⟨[.exg], longOnly, [.dn, .an], [⟨6, 1, 0⟩], none⟩,
    ⟨[.exg], longOnly, [.an, .dn], [⟨6, 1, 0⟩], none⟩,
    ⟨[.exg], longOnly, [.an, .an], [⟨6, 1, 0⟩], none⟩,
    ⟨[.ext], wordLong, [.dn], [⟨4, 1, 0⟩], none⟩,
    ⟨[.link], wordLong, [.an, .immediate], [⟨16, 2, 2⟩], none⟩,
    ⟨[.nop], unsized, [], [⟨4, 1, 0⟩], none⟩,
    ⟨[.reset], unsized, [], [⟨132, 1, 0⟩], none⟩,
    ⟨[.rte], unsized, [], [⟨20, 5, 0⟩], none⟩,
    ⟨[.rtr], unsized, [], [⟨20, 5, 0⟩], none⟩,
    ⟨[.rts], unsized, [], [⟨16, 4, 0⟩], none⟩,
    ⟨[.stop], unsized, [.immediate], [⟨4, 1, 0⟩], none⟩,
    ⟨[.swap], wordOnly, [.dn], [⟨4, 1, 0⟩], none⟩,
    ⟨[.trap], unsized, [.immediate], [⟨34, 4, 3⟩], none⟩,
    ⟨[.trapv], unsized, [], [⟨4, 1, 0⟩, ⟨34, 5, 3⟩], none⟩,
    ⟨[.unlk], unsized, [.an], [⟨12, 3, 0⟩], none⟩,
    ⟨[.illegal], unsized, [], [⟨34, 4, 3⟩], none⟩]

/-- Condition codes, status register and user stack pointer. -/
def statusRows : List Row :=
  [⟨[.and, .andi, .eor, .eori], byteWord, [.immediate, .ccr], [⟨20, 3, 0⟩], none⟩,
    ⟨[.or, .ori], byteWord, [.immediate, .ccr], [⟨20, 3, 0⟩], none⟩,
    ⟨[.and, .andi, .eor, .eori], byteWord, [.immediate, .sr], [⟨20, 3, 0⟩], none⟩,
    ⟨[.or, .ori], byteWord, [.immediate, .sr], [⟨20, 3, 0⟩], none⟩,
    ⟨[.move], wordOnly, [.sr, .effective], [⟨6, 1, 0⟩], none⟩,
    ⟨[.move], wordOnly, [.effective, .ccr], [⟨12, 1, 0⟩], none⟩,
    ⟨[.move], wordOnly, [.effective, .sr], [⟨12, 1, 0⟩], none⟩,
    ⟨[.move], longOnly, [.an, .usp], [⟨4, 1, 0⟩], none⟩,
    ⟨[.move], longOnly, [.usp, .an], [⟨4, 1, 0⟩], none⟩]

/-- Transfers to every other byte. -/
def peripheralRows : List Row :=
  [⟨[.movep], wordOnly, [.dn, .displaced], [⟨16, 2, 2⟩], none⟩,
    ⟨[.movep], wordOnly, [.displaced, .dn], [⟨16, 4, 0⟩], none⟩,
    ⟨[.movep], longOnly, [.dn, .displaced], [⟨24, 2, 4⟩], none⟩,
    ⟨[.movep], longOnly, [.displaced, .dn], [⟨24, 6, 0⟩], none⟩]

/-! ### All rows -/

def rows : List Row :=
  moveRows ++ standardRows ++ immediateRows ++ singleOperandRows ++ shiftRows ++ bitRows ++
    branchRows ++ addressRows ++ loadRows ++ storeRows ++ multiprecisionRows ++ miscellaneousRows ++
    statusRows ++ peripheralRows

end Asm68k.Timing
