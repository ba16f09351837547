/-
The ModRM byte. Its two top bits say whether the r/m field names a
register or a memory operand, and in the second case how wide the
displacement is that follows; the middle field names a register, or
extends the opcode.
-/
import Disasm8086.Address
import Disasm8086.Reader

namespace Disasm8086

/-- A byte read as three fields of two, three and three bits. -/
structure ModRM where
  byte : UInt8
  deriving DecidableEq, Repr

namespace ModRM

-- ============================================================= fields

/-- The top field: register form, or the width of the displacement. -/
def mod (m : ModRM) : Fin 4 := Fin.ofNat 4 (m.byte.toNat / 64)

/-- The middle field: a register number or an opcode extension. -/
def reg (m : ModRM) : Fin 8 := Fin.ofNat 8 (m.byte.toNat / 8)

/-- The bottom field: a register number or an addressing mode. -/
def rm (m : ModRM) : Fin 8 := Fin.ofNat 8 m.byte.toNat

/-- Whether the r/m field names a memory operand. -/
def isMemory (m : ModRM) : Bool := m.mod != 3

/-- The addressing mode, unless the r/m field names a register. Without a
displacement `BP` alone cannot be addressed: its place is taken by the
direct address. -/
def mode? (m : ModRM) : Option AddressingMode :=
  if m.mod = 3 then none
  else if m.mod = 0 ∧ m.rm = 6 then some .direct
  else some (.ofNumber m.rm)

/-- The register of the given width that the r/m field names. -/
def rmRegister (m : ModRM) : Width → Register
  | .byte => .ofByteNumber m.rm
  | _ => .ofWordNumber m.rm

/-- The register of the given width that the middle field names. -/
def regRegister (m : ModRM) : Width → Register
  | .byte => .ofByteNumber m.reg
  | _ => .ofWordNumber m.reg

/-- The segment that the middle field names, if it names one. -/
def segment? (m : ModRM) : Option Segment := Segment.ofNumber? m.reg

/-- The memory operand that the r/m field and a displacement denote,
unless the r/m field names a register. -/
def memory? (m : ModRM) (displacement : Displacement) (size : Width) :
    Option MemoryReference :=
  m.mode?.map fun mode => { mode, displacement, size }

-- ============================================================ reading

/-- How wide a displacement follows. -/
def displacementWidth (m : ModRM) : Width :=
  if m.mod = 1 then .byte
  else if m.mod = 2 ∨ m.mod = 0 ∧ m.rm = 6 then .word
  else .none

/-- Reads the displacement that follows. -/
def readDisplacement (m : ModRM) : Reader Displacement :=
  match m.displacementWidth with
  | .none => pure .none
  | .byte => .byte <$> Reader.signedByte
  | .word => .word <$> Reader.signedWord

/-- Reads a ModRM byte and its displacement. -/
def read : Reader (ModRM × Displacement) := do
  let m : ModRM := ⟨← Reader.byte⟩
  return (m, ← m.readDisplacement)

/-- Reads the displacement that follows, and tells how many bytes it has
taken. -/
def readSizedDisplacement (m : ModRM) : Reader (Displacement × Nat) :=
  (fun d => (d, d.encodedSize)) <$> m.readDisplacement

/-- Reads a ModRM byte and its displacement, and tells how many bytes the
two have taken. -/
def readSized : Reader (ModRM × Displacement × Nat) :=
  (fun (m, d) => (m, d, d.encodedSize + 1)) <$> read

/-- Displacements are taken off the front. -/
instance advances_readDisplacement (m : ModRM) : Reader.Advances m.readDisplacement := by
  unfold readDisplacement
  split <;> infer_instance

/-- The ModRM byte is taken first, then its displacement. -/
instance advances_read : Reader.Advances read :=
  Reader.advances_bind Reader.advances_byte fun b =>
    Reader.advances_bind (advances_readDisplacement ⟨b⟩) fun _ =>
      Reader.advances_pure _

instance advances_readSizedDisplacement (m : ModRM) :
    Reader.Advances m.readSizedDisplacement := Reader.advances_map _

instance advances_readSized : Reader.Advances readSized := Reader.advances_map _

end ModRM

end Disasm8086
