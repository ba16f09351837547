/-
Memory operands and the addresses they denote. An operand names up to
two registers and a displacement; their sum, modulo 2^16, is the offset
of the operand in its segment. Segment and offset together give one of
2^20 linear addresses.
-/
import Disasm8086.Register

namespace Disasm8086

/-- The contents of the registers. -/
abbrev RegisterFile := Register → UInt16

/-- The linear address of an offset in the segment that starts at
sixteen times `segment`. Addresses wrap around at 2^20. -/
def linearAddress (segment offset : UInt16) : BitVec 20 :=
  (segment.toBitVec.setWidth 20 <<< 4) + offset.toBitVec.setWidth 20

-- ====================================================== displacements

/-- The constant part of a memory operand, as wide as its encoding. -/
inductive Displacement where
  | none
  | byte (d : Int8)
  | word (d : Int16)
  deriving DecidableEq, Repr, Inhabited

namespace Displacement

/-- The displacement as a signed word. -/
def value : Displacement → Int16
  | .none => 0
  | .byte d => d.toInt16
  | .word d => d

/-- The displacement as the word that is added to the registers. -/
def toWord (d : Displacement) : UInt16 := d.value.toUInt16

/-- Whether the displacement adds nothing. -/
def isZero (d : Displacement) : Bool := d.value == 0

/-- How wide the encoding of the displacement is. -/
def width : Displacement → Width
  | .none => .none
  | .byte _ => .byte
  | .word _ => .word

/-- How many bytes the encoding of a displacement takes. -/
def encodedSize : Displacement → Nat
  | .none => 0
  | .byte _ => 1
  | .word _ => 2

end Displacement

-- =================================================== addressing modes

/-- The registers that take part in an address. `direct` takes none: the
displacement is the whole address. -/
inductive AddressingMode where
  | bxSi | bxDi | bpSi | bpDi | si | di | bp | bx | direct
  deriving DecidableEq, Repr, Inhabited

namespace AddressingMode

/-- The mode that the r/m field of a ModRM byte selects. -/
def ofNumber (rm : Fin 8) : AddressingMode :=
  #v[bxSi, bxDi, bpSi, bpDi, si, di, bp, bx].get rm

/-- The first register of the sum. -/
def base? : AddressingMode → Option Register
  | .bxSi | .bxDi | .bx => some .BX
  | .bpSi | .bpDi | .bp => some .BP
  | .si => some .SI
  | .di => some .DI
  | .direct => none

/-- The second register of the sum. -/
def index? : AddressingMode → Option Register
  | .bxSi | .bpSi => some .SI
  | .bxDi | .bpDi => some .DI
  | _ => none

/-- The registers of the sum, in the order in which they are written. -/
def registers (m : AddressingMode) : List Register :=
  m.base?.toList ++ m.index?.toList

/-- Modes based on `BP` address the stack, all others the data segment. -/
def defaultSegment : AddressingMode → Segment
  | .bpSi | .bpDi | .bp => .SS
  | _ => .DS

end AddressingMode

-- ================================================== memory references

/-- A memory operand: where it lies and how wide it is. -/
structure MemoryReference where
  mode : AddressingMode
  displacement : Displacement
  override : Option Segment := none
  size : Width
  deriving DecidableEq, Repr

namespace MemoryReference

/-- The operand at a fixed offset. -/
def direct (address : UInt16) (size : Width) : MemoryReference where
  mode := .direct
  displacement := .word address.toInt16
  size := size

/-- The segment that the operand lies in: an override wins over the
mode's own segment. -/
def segment (m : MemoryReference) : Segment :=
  m.override.getD m.mode.defaultSegment

/-- The offset of the operand in its segment. -/
def offset (m : MemoryReference) (regs : RegisterFile) : UInt16 :=
  m.mode.registers.foldl (fun sum r => sum + regs r) m.displacement.toWord

/-- The linear address of the operand. -/
def linear (m : MemoryReference) (regs : RegisterFile) : BitVec 20 :=
  linearAddress (regs m.segment.register) (m.offset regs)

end MemoryReference

end Disasm8086
