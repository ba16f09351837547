/-
The operations of the 8086 by mnemonic, alphabetically but for the
conditional jumps, which stand in the order of their condition codes.
Near and far transfers of control are different operations that share a
spelling: what tells them apart in assembly text is the shape of their
operand.
-/

namespace Disasm8086

/-- An operation. `invalid` fills the places of the opcode map to which
no operation is assigned. -/
inductive Mnemonic where
  | invalid
  | AAA | AAD | AAM | AAS | ADC | ADD | AND | CALL | CALLF | CBW | CLC
  | CLD | CLI | CMC | CMP | CMPSB | CMPSW | CWD | DAA | DAS | DEC | DIV
  | ESC | HLT | IDIV | IMUL | IN | INC | INT | INT3 | INTO | IRET | JO
  | JNO | JB | JAE | JE | JNE | JBE | JA | JS | JNS | JP | JNP | JL | JGE
  | JLE | JG | JCXZ | JMP | JMPF | LAHF | LDS | LEA | LES | LODSB | LODSW
  | LOOP | LOOPZ | LOOPNZ | MOV | MOVSB | MOVSW | MUL | NEG | NOP | NOT
  | OR | OUT | POP | POPF | PUSH | PUSHF | RCL | RCR | RET | RETF | ROL
  | ROR | SAHF | SAR | SBB | SCASB | SCASW | SHL | SHR | STC | STD | STI
  | STOSB | STOSW | SUB | TEST | WAIT | XCHG | XLAT | XOR
  deriving DecidableEq, Repr, Inhabited

namespace Mnemonic

/-- All mnemonics, in declaration order. -/
def all : List Mnemonic :=
  [.invalid, .AAA, .AAD, .AAM, .AAS, .ADC, .ADD, .AND, .CALL, .CALLF, .CBW,
   .CLC, .CLD, .CLI, .CMC, .CMP, .CMPSB, .CMPSW, .CWD, .DAA, .DAS, .DEC,
   .DIV, .ESC, .HLT, .IDIV, .IMUL, .IN, .INC, .INT, .INT3, .INTO, .IRET,
   .JO, .JNO, .JB, .JAE, .JE, .JNE, .JBE, .JA, .JS, .JNS, .JP, .JNP, .JL,
   .JGE, .JLE, .JG, .JCXZ, .JMP, .JMPF, .LAHF, .LDS, .LEA, .LES, .LODSB,
   .LODSW, .LOOP, .LOOPZ, .LOOPNZ, .MOV, .MOVSB, .MOVSW, .MUL, .NEG, .NOP,
   .NOT, .OR, .OUT, .POP, .POPF, .PUSH, .PUSHF, .RCL, .RCR, .RET, .RETF,
   .ROL, .ROR, .SAHF, .SAR, .SBB, .SCASB, .SCASW, .SHL, .SHR, .STC, .STD,
   .STI, .STOSB, .STOSW, .SUB, .TEST, .WAIT, .XCHG, .XLAT, .XOR]

/-- The mnemonic as assembly text spells it. -/
def text : Mnemonic → String
  | .invalid => "INVALID"
  | .AAA => "AAA" | .AAD => "AAD" | .AAM => "AAM" | .AAS => "AAS"
  | .ADC => "ADC" | .ADD => "ADD" | .AND => "AND" | .CALL => "CALL"
  | .CALLF => "CALL" | .CBW => "CBW" | .CLC => "CLC" | .CLD => "CLD"
  | .CLI => "CLI" | .CMC => "CMC" | .CMP => "CMP" | .CMPSB => "CMPSB"
  | .CMPSW => "CMPSW" | .CWD => "CWD" | .DAA => "DAA" | .DAS => "DAS"
  | .DEC => "DEC" | .DIV => "DIV" | .ESC => "ESC" | .HLT => "HLT"
  | .IDIV => "IDIV" | .IMUL => "IMUL" | .IN => "IN" | .INC => "INC"
  | .INT => "INT" | .INT3 => "INT3" | .INTO => "INTO" | .IRET => "IRET"
  | .JO => "JO" | .JNO => "JNO" | .JB => "JB" | .JAE => "JAE"
  | .JE => "JE" | .JNE => "JNE" | .JBE => "JBE" | .JA => "JA"
  | .JS => "JS" | .JNS => "JNS" | .JP => "JP" | .JNP => "JNP"
  | .JL => "JL" | .JGE => "JGE" | .JLE => "JLE" | .JG => "JG"
  | .JCXZ => "JCXZ" | .JMP => "JMP" | .JMPF => "JMP" | .LAHF => "LAHF"
  | .LDS => "LDS" | .LEA => "LEA" | .LES => "LES" | .LODSB => "LODSB"
  | .LODSW => "LODSW" | .LOOP => "LOOP" | .LOOPZ => "LOOPZ"
  | .LOOPNZ => "LOOPNZ" | .MOV => "MOV" | .MOVSB => "MOVSB"
  | .MOVSW => "MOVSW" | .MUL => "MUL" | .NEG => "NEG" | .NOP => "NOP"
  | .NOT => "NOT" | .OR => "OR" | .OUT => "OUT" | .POP => "POP"
  | .POPF => "POPF" | .PUSH => "PUSH" | .PUSHF => "PUSHF" | .RCL => "RCL"
  | .RCR => "RCR" | .RET => "RET" | .RETF => "RETF" | .ROL => "ROL"
  | .ROR => "ROR" | .SAHF => "SAHF" | .SAR => "SAR" | .SBB => "SBB"
  | .SCASB => "SCASB" | .SCASW => "SCASW" | .SHL => "SHL" | .SHR => "SHR"
  | .STC => "STC" | .STD => "STD" | .STI => "STI" | .STOSB => "STOSB"
  | .STOSW => "STOSW" | .SUB => "SUB" | .TEST => "TEST" | .WAIT => "WAIT"
  | .XCHG => "XCHG" | .XLAT => "XLAT" | .XOR => "XOR"

/-- The place of the mnemonic in the enumeration, `invalid` being 0. -/
def position (m : Mnemonic) : Nat := m.ctorIdx

/-- Shifts and rotates: their count does not fix the operand size. -/
def isShiftRotate : Mnemonic → Bool
  | .ROL | .ROR | .RCL | .RCR | .SHL | .SHR | .SAR => true
  | _ => false

/-- Transfers of control that name a segment as well as an offset. -/
def isFarBranch : Mnemonic → Bool
  | .CALLF | .JMPF => true
  | _ => false

/-- The string operations, which have only implied operands. -/
def isStringOp : Mnemonic → Bool
  | .MOVSB | .MOVSW | .CMPSB | .CMPSW | .STOSB | .STOSW
  | .LODSB | .LODSW | .SCASB | .SCASW => true
  | _ => false

end Mnemonic

end Disasm8086
