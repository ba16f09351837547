/-
The shape of the opcode map. A row says which operation an opcode
stands for and how its operands are encoded. Some opcodes stand for a
group of eight operations: their row carries no operation, and the
middle field of the ModRM byte picks a row of the group.
-/
import Disasm8086.Mnemonic
import Disasm8086.Register

namespace Disasm8086

-- ============================================================ patterns

/-- How an operand is encoded. -/
inductive Pattern where
  /-- No operand. -/
  | none
  /-- The byte register or memory operand of the r/m field. -/
  | rm8
  /-- The word register or memory operand of the r/m field. -/
  | rm16
  /-- The r/m field, which has to name a memory operand. -/
  | mem
  /-- The byte register of the middle field. -/
  | reg8
  /-- The word register of the middle field. -/
  | reg16
  /-- The segment register of the middle field, read. -/
  | segment
  /-- The segment register of the middle field, written: `CS` is the one
  that cannot be. -/
  | segmentTarget
  /-- An immediate byte. -/
  | imm8
  /-- An immediate word. -/
  | imm16
  /-- An immediate byte that is sign-extended to a word. -/
  | imm8Extended
  /-- An immediate byte that is never negative. -/
  | imm8Unsigned
  /-- An immediate word that is never negative. -/
  | imm16Unsigned
  /-- A branch distance of one byte. -/
  | rel8
  /-- A branch distance of one word. -/
  | rel16
  /-- A byte at an offset that follows the opcode. -/
  | offset8
  /-- A word at an offset that follows the opcode. -/
  | offset16
  /-- A register implied by the opcode. -/
  | fixed (r : Register)
  /-- A constant implied by the opcode. -/
  | implied (value : UInt8)
  /-- A far pointer: an offset, then a segment. -/
  | farPointer
  /-- The external opcode of an escape: three bits of the opcode and the
  middle field. -/
  | external
  deriving DecidableEq, Repr, Inhabited

/-- Whether the operand is encoded in the ModRM byte. -/
def Pattern.usesModRM : Pattern → Bool
  | .rm8 | .rm16 | .mem | .reg8 | .reg16 | .segment | .segmentTarget | .external => true
  | _ => false

-- ============================================================== groups

/-- The opcodes whose operation is picked by the ModRM byte. -/
inductive Group where
  /-- 80: arithmetic with an immediate byte. -/
  | arith80
  /-- 81: arithmetic with an immediate word. -/
  | arith81
  /-- 82: arithmetic with an immediate byte, once more. -/
  | arith82
  /-- 83: arithmetic with a sign-extended immediate byte. -/
  | arith83
  /-- 8F: pop. -/
  | pop8F
  /-- C6: move of an immediate byte. -/
  | moveC6
  /-- C7: move of an immediate word. -/
  | moveC7
  /-- D0: shift of a byte by one. -/
  | shiftD0
  /-- D1: shift of a word by one. -/
  | shiftD1
  /-- D2: shift of a byte by `CL`. -/
  | shiftD2
  /-- D3: shift of a word by `CL`. -/
  | shiftD3
  /-- F6: unary operations on a byte. -/
  | unaryF6
  /-- F7: unary operations on a word. -/
  | unaryF7
  /-- FE: increment and decrement of a byte. -/
  | stepFE
  /-- FF: increment, decrement, indirect branches and push of a word. -/
  | stepFF
  deriving DecidableEq, Repr

namespace Group

/-- All groups, in the order of their opcodes. -/
def all : List Group :=
  [.arith80, .arith81, .arith82, .arith83, .pop8F, .moveC6, .moveC7,
   .shiftD0, .shiftD1, .shiftD2, .shiftD3, .unaryF6, .unaryF7, .stepFE, .stepFF]

/-- The number of a group, counted from 1. -/
def number (g : Group) : Nat := g.ctorIdx + 1

end Group

-- ================================================================ rows

/-- A row of the opcode map. -/
structure Row where
  mnemonic : Mnemonic := .invalid
  width : Width := .none
  first : Pattern := .none
  second : Pattern := .none
  group : Option Group := none
  deriving DecidableEq, Repr, Inhabited

namespace Row

/-- Whether a ModRM byte follows the opcode. -/
def hasModRM (r : Row) : Bool :=
  r.group.isSome || r.first.usesModRM || r.second.usesModRM

/-- Whether two registers are listed in the other order: the rows that
load a register from the r/m field put the r/m register first. -/
def reversesRegisters (r : Row) : Bool :=
  r.first == .reg8 && r.second == .rm8 || r.first == .reg16 && r.second == .rm16

end Row

end Disasm8086
