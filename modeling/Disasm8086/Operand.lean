/-
Operands. An immediate is kept as the signed word that it extends to,
together with the number of bits that its encoding carried and the role
that it plays; the role decides how it is written.
-/
import Disasm8086.Address

namespace Disasm8086

-- ========================================================= immediates

/-- The role of an immediate. -/
inductive Immediate.Role where
  /-- An ordinary operand of arithmetic. -/
  | plain
  /-- A distance from the end of the instruction to a branch target. -/
  | relative
  /-- An I/O address, an interrupt vector, a stack adjustment or an external
  opcode: never negative. -/
  | unsigned
  /-- The segment of a far pointer. -/
  | farSegment
  /-- The offset of a far pointer. -/
  | farOffset
  deriving DecidableEq, Repr, Inhabited

/-- A constant operand, sign-extended to a word. -/
structure Immediate where
  value : Int16
  width : Width
  role : Immediate.Role := .plain
  deriving DecidableEq, Repr

namespace Immediate

/-- A byte operand. -/
def byte (b : UInt8) : Immediate where
  value := b.toInt8.toInt16
  width := .byte

/-- A word operand. -/
def word (w : UInt16) : Immediate where
  value := w.toInt16
  width := .word

/-- A word operand that the encoding abbreviates to one byte. -/
def signExtended (b : Int8) : Immediate where
  value := b.toInt16
  width := .word

/-- A branch distance of one byte. -/
def relativeByte (d : Int8) : Immediate where
  value := d.toInt16
  width := .byte
  role := .relative

/-- A branch distance of one word. -/
def relativeWord (d : Int16) : Immediate where
  value := d
  width := .word
  role := .relative

/-- The same constant in another role. -/
def withRole (i : Immediate) (role : Role) : Immediate :=
  { i with role := role }

/-- The encoded bits, without their sign. -/
def toWord (i : Immediate) : UInt16 :=
  match i.width with
  | .byte => i.value.toUInt16.toUInt8.toUInt16
  | _ => i.value.toUInt16

/-- Whether the immediate is a branch distance. -/
def isRelative (i : Immediate) : Bool := i.role == .relative

end Immediate

-- =========================================================== operands

/-- An operand of an instruction. -/
inductive Operand where
  | register (r : Register)
  | immediate (i : Immediate)
  | memory (m : MemoryReference)
  deriving DecidableEq, Repr

namespace Operand

/-- Whether the operand is a register. -/
def isRegister : Operand → Bool
  | .register _ => true
  | _ => false

/-- Whether the operand lies in memory. -/
def isMemory : Operand → Bool
  | .memory _ => true
  | _ => false

/-- Whether the operand is the segment half of a far pointer. -/
def isFarSegment : Operand → Bool
  | .immediate i => i.role == .farSegment
  | _ => false

/-- How wide the operand is. -/
def width : Operand → Width
  | .register r => r.width
  | .immediate i => i.width
  | .memory m => m.size

end Operand

end Disasm8086
