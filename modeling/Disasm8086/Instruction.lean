/-
Instructions: the operation, its operands, the prefixes in force, and
how many bytes the encoding took. The opcode byte is kept because some
operations have several encodings.
-/
import Disasm8086.Mnemonic
import Disasm8086.Operand
import Disasm8086.Prefix

namespace Disasm8086

/-- One machine instruction. `length` counts prefixes, opcode, ModRM
byte, displacement and immediates. -/
structure Instruction where
  opcode : UInt8
  length : Nat
  mnemonic : Mnemonic
  width : Width
  operands : List Operand
  prefixes : Prefixes := .empty
  deriving DecidableEq, Repr

namespace Instruction

/-- The segment override in force, if any. -/
def segment? (i : Instruction) : Option Segment := i.prefixes.segment?

/-- Whether the instruction locks the bus. -/
def isLocked (i : Instruction) : Bool := i.prefixes.has .lock

/-- Whether the instruction repeats while equal. -/
def isRep (i : Instruction) : Bool := i.prefixes.has .rep

/-- Whether the instruction repeats while not equal. -/
def isRepne (i : Instruction) : Bool := i.prefixes.has .repne

/-- Whether some operand lies in memory. -/
def hasMemoryOperand (i : Instruction) : Bool := i.operands.any Operand.isMemory

/-- The offset to which a relative branch at `address` goes. The distance
counts from the first byte after the instruction; offsets wrap around
at 2^16. -/
def jumpTarget? (i : Instruction) (address : UInt16) : Option UInt16 :=
  i.operands.findSome? fun
    | .immediate d =>
      if d.isRelative then
        some (address + UInt16.ofNat i.length + d.value.toUInt16)
      else none
    | _ => none

end Instruction

end Disasm8086
