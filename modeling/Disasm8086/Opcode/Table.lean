/-
The opcode map of the 8086: 256 rows for the opcodes, in blocks of
sixteen, then eight rows for each group. Regular stretches of the map
are written once, as functions of what varies in them.
-/
import Disasm8086.Opcode

namespace Disasm8086

namespace Row

-- ================================================== regular stretches

/-- A place to which no operation is assigned. -/
def unassigned (width : Width := .none) : Row := { width }

/-- The row of an opcode that stands for a group. -/
def grouped (group : Group) (width : Width) : Row := { width, group := some group }

/-- An operation without operands. -/
def bare (mnemonic : Mnemonic) (width : Width := .none) : Row := { mnemonic, width }

/-- An operation with one operand. -/
def unary (mnemonic : Mnemonic) (width : Width) (operand : Pattern) : Row :=
  { mnemonic, width, first := operand }

/-- An operation with two operands. -/
def binary (mnemonic : Mnemonic) (width : Width) (first second : Pattern) : Row :=
  { mnemonic, width, first, second }

/-- The six forms of an arithmetic operation, as the map lists them. -/
def arithmetic (mnemonic : Mnemonic) : List Row :=
  [binary mnemonic .byte .rm8 .reg8,
   binary mnemonic .word .rm16 .reg16,
   binary mnemonic .byte .reg8 .rm8,
   binary mnemonic .word .reg16 .rm16,
   binary mnemonic .byte (.fixed .AL) .imm8,
   binary mnemonic .word (.fixed .AX) .imm16]

/-- One operation on each of the eight byte registers. -/
def perByteRegister (row : Register → Row) : List Row :=
  [row .AL, row .CL, row .DL, row .BL, row .AH, row .CH, row .DH, row .BH]

/-- One operation on each of the eight word registers. -/
def perWordRegister (row : Register → Row) : List Row :=
  [row .AX, row .CX, row .DX, row .BX, row .SP, row .BP, row .SI, row .DI]

/-- A conditional branch. -/
def branch (mnemonic : Mnemonic) : Row := unary mnemonic .none .rel8

-- ============================================================= opcodes

/-- Opcodes 00 to 3F: the eight arithmetic operations, and between them
the segment pushes and pops, the prefixes and the decimal adjustments. -/
def block0 : List Row :=
  arithmetic .ADD ++ [unary .PUSH .word (.fixed .ES), unary .POP .word (.fixed .ES)] ++
  arithmetic .OR ++ [unary .PUSH .word (.fixed .CS), unassigned] ++
  arithmetic .ADC ++ [unary .PUSH .word (.fixed .SS), unary .POP .word (.fixed .SS)] ++
  arithmetic .SBB ++ [unary .PUSH .word (.fixed .DS), unary .POP .word (.fixed .DS)] ++
  arithmetic .AND ++ [unassigned, bare .DAA] ++
  arithmetic .SUB ++ [unassigned, bare .DAS] ++
  arithmetic .XOR ++ [unassigned, bare .AAA] ++
  arithmetic .CMP ++ [unassigned, bare .AAS]

/-- Opcodes 40 to 7F: word registers by number, a gap, and the
conditional branches. -/
def block4 : List Row :=
  perWordRegister (fun r => unary .INC .word (.fixed r)) ++
  perWordRegister (fun r => unary .DEC .word (.fixed r)) ++
  perWordRegister (fun r => unary .PUSH .word (.fixed r)) ++
  perWordRegister (fun r => unary .POP .word (.fixed r)) ++
  List.replicate 16 unassigned ++
  [branch .JO, branch .JNO, branch .JB, branch .JAE,
   branch .JE, branch .JNE, branch .JBE, branch .JA,
   branch .JS, branch .JNS, branch .JP, branch .JNP,
   branch .JL, branch .JGE, branch .JLE, branch .JG]

/-- Opcodes 80 to 9F: arithmetic groups, moves between registers and
memory, exchanges and a few bare operations. -/
def block8 : List Row :=
  [grouped .arith80 .byte, grouped .arith81 .word,
   grouped .arith82 .byte, grouped .arith83 .word,
   binary .TEST .byte .rm8 .reg8, binary .TEST .word .rm16 .reg16,
   binary .XCHG .byte .reg8 .rm8, binary .XCHG .word .reg16 .rm16,
   binary .MOV .byte .rm8 .reg8, binary .MOV .word .rm16 .reg16,
   binary .MOV .byte .reg8 .rm8, binary .MOV .word .reg16 .rm16,
   binary .MOV .word .rm16 .segment, binary .LEA .word .reg16 .mem,
   binary .MOV .word .segmentTarget .rm16, grouped .pop8F .word,
   bare .NOP] ++
  (perWordRegister fun r => binary .XCHG .word (.fixed r) (.fixed .AX)).tail ++
  [bare .CBW, bare .CWD, unary .CALLF .none .farPointer, bare .WAIT,
   bare .PUSHF, bare .POPF, bare .SAHF, bare .LAHF]

/-- Opcodes A0 to BF: the accumulator and direct addresses, string
operations, and moves of immediates to registers by number. -/
def blockA : List Row :=
  [binary .MOV .byte (.fixed .AL) .offset8, binary .MOV .word (.fixed .AX) .offset16,
   binary .MOV .byte .offset8 (.fixed .AL), binary .MOV .word .offset16 (.fixed .AX),
   bare .MOVSB .byte, bare .MOVSW .word, bare .CMPSB .byte, bare .CMPSW .word,
   binary .TEST .byte (.fixed .AL) .imm8, binary .TEST .word (.fixed .AX) .imm16,
   bare .STOSB .byte, bare .STOSW .word, bare .LODSB .byte, bare .LODSW .word,
   bare .SCASB .byte, bare .SCASW .word] ++
  perByteRegister (fun r => binary .MOV .byte (.fixed r) .imm8) ++
  perWordRegister (fun r => binary .MOV .word (.fixed r) .imm16)

/-- Opcodes C0 to DF: returns, interrupts, shift groups, decimal
adjustments of products, and escapes to a coprocessor. -/
def blockC : List Row :=
  [unassigned, unassigned, unary .RET .none .imm16Unsigned, bare .RET,
   binary .LES .word .reg16 .mem, binary .LDS .word .reg16 .mem,
   grouped .moveC6 .byte, grouped .moveC7 .word,
   unassigned, unassigned, unary .RETF .none .imm16Unsigned, bare .RETF,
   bare .INT3, unary .INT .none .imm8Unsigned, bare .INTO, bare .IRET,
   grouped .shiftD0 .byte, grouped .shiftD1 .word,
   grouped .shiftD2 .byte, grouped .shiftD3 .word,
   unary .AAM .byte .imm8Unsigned, unary .AAD .byte .imm8Unsigned,
   unassigned, bare .XLAT .byte] ++
  List.replicate 8 (binary .ESC .none .external .rm16)

/-- Opcodes E0 to FF: loops, input and output, direct branches, the remaining
prefixes, flag operations and unary groups. -/
def blockE : List Row :=
  [branch .LOOPNZ, branch .LOOPZ, branch .LOOP, branch .JCXZ,
   binary .IN .byte (.fixed .AL) .imm8Unsigned,
   binary .IN .word (.fixed .AX) .imm8Unsigned,
   binary .OUT .byte .imm8Unsigned (.fixed .AL),
   binary .OUT .word .imm8Unsigned (.fixed .AX),
   unary .CALL .none .rel16, unary .JMP .none .rel16,
   unary .JMPF .none .farPointer, unary .JMP .none .rel8,
   binary .IN .byte (.fixed .AL) (.fixed .DX),
   binary .IN .word (.fixed .AX) (.fixed .DX),
   binary .OUT .byte (.fixed .DX) (.fixed .AL),
   binary .OUT .word (.fixed .DX) (.fixed .AX),
   unassigned, unassigned, unassigned, unassigned,
   bare .HLT, bare .CMC, grouped .unaryF6 .byte, grouped .unaryF7 .word,
   bare .CLC, bare .STC, bare .CLI, bare .STI,
   bare .CLD, bare .STD, grouped .stepFE .byte, grouped .stepFF .word]

/-- The rows of the 256 opcodes. -/
def opcodes : List Row := block0 ++ block4 ++ block8 ++ blockA ++ blockC ++ blockE

/-- Every byte has a row. -/
theorem length_opcodes : opcodes.length = 256 := by decide +kernel

/-- The rows of the opcodes, for look-up. -/
def opcodeArray : Array Row := opcodes.toArray

theorem size_opcodeArray : opcodeArray.size = 256 := length_opcodes

/-- The row of an opcode. -/
def ofOpcode (opcode : UInt8) : Row :=
  have : opcode.toNat < opcodeArray.size := by
    rw [size_opcodeArray]
    exact opcode.toNat_lt
  opcodeArray[opcode.toNat]

end Row

-- ============================================================== groups

namespace Group

/-- The eight arithmetic operations, in the order of their numbers. -/
def arithmetic (width : Width) (operand constant : Pattern) : Vector Row 8 :=
  #v[.ADD, .OR, .ADC, .SBB, .AND, .SUB, .XOR, .CMP].map
    fun mnemonic => .binary mnemonic width operand constant

/-- A group of one operation. -/
def single (row : Row) : Vector Row 8 :=
  let gap := Row.unassigned row.width
  #v[row, gap, gap, gap, gap, gap, gap, gap]

/-- The shifts and rotates. -/
def shifts (width : Width) (operand count : Pattern) : Vector Row 8 :=
  let shift mnemonic := Row.binary mnemonic width operand count
  #v[shift .ROL, shift .ROR, shift .RCL, shift .RCR,
     shift .SHL, shift .SHR, .unassigned width, shift .SAR]

/-- Tests, complements, negations, products and quotients. -/
def unaries (width : Width) (operand constant : Pattern) : Vector Row 8 :=
  let apply mnemonic := Row.unary mnemonic width operand
  #v[.binary .TEST width operand constant, .unassigned width, apply .NOT, apply .NEG,
     apply .MUL, apply .IMUL, apply .DIV, apply .IDIV]

/-- The rows of a group, by opcode extension. -/
def rows : Group → Vector Row 8
  | .arith80 => arithmetic .byte .rm8 .imm8
  | .arith81 => arithmetic .word .rm16 .imm16
  | .arith82 => arithmetic .byte .rm8 .imm8
  | .arith83 => arithmetic .word .rm16 .imm8Extended
  | .pop8F => single (.unary .POP .word .rm16)
  | .moveC6 => single (.binary .MOV .byte .rm8 .imm8)
  | .moveC7 => single (.binary .MOV .word .rm16 .imm16)
  | .shiftD0 => shifts .byte .rm8 (.implied 1)
  | .shiftD1 => shifts .word .rm16 (.implied 1)
  | .shiftD2 => shifts .byte .rm8 (.fixed .CL)
  | .shiftD3 => shifts .word .rm16 (.fixed .CL)
  | .unaryF6 => unaries .byte .rm8 .imm8
  | .unaryF7 => unaries .word .rm16 .imm16
  | .stepFE =>
    #v[.unary .INC .byte .rm8, .unary .DEC .byte .rm8,
       .unassigned .byte, .unassigned .byte, .unassigned .byte,
       .unassigned .byte, .unassigned .byte, .unassigned .byte]
  | .stepFF =>
    #v[.unary .INC .word .rm16, .unary .DEC .word .rm16,
       .unary .CALL .word .rm16, .unary .CALLF .word .mem,
       .unary .JMP .word .rm16, .unary .JMPF .word .mem,
       .unary .PUSH .word .rm16, .unassigned .word]

/-- The row of a group that an opcode extension picks. -/
def row (g : Group) (extension : Fin 8) : Row := g.rows.get extension

end Group

/-- The whole map, opcodes first and then the groups in order. -/
def Row.all : List Row := Row.opcodes ++ Group.all.flatMap fun g => g.rows.toList

end Disasm8086
