/-
Decoding one instruction: a run of prefixes, the opcode, a ModRM byte
and a displacement if the opcode has them, and the immediate bytes of
the operands. Faults are reported in the order in which the bytes are
read; an opcode without an operation is a fault whatever follows it.
-/
import Disasm8086.Instruction
import Disasm8086.ModRM
import Disasm8086.Opcode.Table

namespace Disasm8086

/-- What the operands of an instruction are made from, before any
immediate bytes. An opcode without a ModRM byte has rows that never
look at `modRM` and `displacement`. -/
structure OperandContext where
  opcode : UInt8
  modRM : ModRM
  displacement : Displacement
  override : Option Segment

namespace OperandContext

/-- The fault of an operand that the operation cannot take. -/
def invalid (ctx : OperandContext) : Fault :=
  .invalidOperand ctx.opcode ctx.modRM.byte

/-- The memory operand of the r/m field, unless it names a register. -/
def memory? (ctx : OperandContext) (size : Width) : Option MemoryReference :=
  (ctx.modRM.memory? ctx.displacement size).map fun m =>
    { m with override := ctx.override }

/-- The register or memory operand of the r/m field. -/
def rmOperand (ctx : OperandContext) (size : Width) : Operand :=
  match ctx.memory? size with
  | some m => .memory m
  | none => .register (ctx.modRM.rmRegister size)

/-- The memory operand at a fixed offset. -/
def directOperand (ctx : OperandContext) (size : Width) (address : UInt16) : Operand :=
  .memory { MemoryReference.direct address size with override := ctx.override }

/-- The external opcode of an escape. -/
def externalOpcode (ctx : OperandContext) : UInt8 :=
  UInt8.ofNat (ctx.opcode.toNat % 8 * 8 + ctx.modRM.reg.val)

end OperandContext

/-- Reads what is left of an operand, and yields the operands that the
pattern stands for: two for a far pointer, at most one otherwise. -/
def Pattern.resolve (ctx : OperandContext) : Pattern → Reader (List Operand)
  | .none => pure []
  | .rm8 => pure [ctx.rmOperand .byte]
  | .rm16 => pure [ctx.rmOperand .word]
  | .mem =>
    match ctx.memory? .word with
    | some m => pure [.memory m]
    | .none => throw ctx.invalid
  | .reg8 => pure [.register (ctx.modRM.regRegister .byte)]
  | .reg16 => pure [.register (ctx.modRM.regRegister .word)]
  | .segment =>
    match ctx.modRM.segment? with
    | some s => pure [.register s.register]
    | .none => throw ctx.invalid
  | .segmentTarget =>
    match ctx.modRM.segment? with
    | some .CS | .none => throw ctx.invalid
    | some s => pure [.register s.register]
  | .imm8 => (fun b => [.immediate (.byte b)]) <$> Reader.byte
  | .imm16 => (fun w => [.immediate (.word w)]) <$> Reader.word
  | .imm8Extended => (fun b => [.immediate (.signExtended b)]) <$> Reader.signedByte
  | .imm8Unsigned =>
    (fun b => [.immediate ((Immediate.byte b).withRole .unsigned)]) <$> Reader.byte
  | .imm16Unsigned =>
    (fun w => [.immediate ((Immediate.word w).withRole .unsigned)]) <$> Reader.word
  | .rel8 => (fun d => [.immediate (.relativeByte d)]) <$> Reader.signedByte
  | .rel16 => (fun d => [.immediate (.relativeWord d)]) <$> Reader.signedWord
  | .offset8 => (fun a => [ctx.directOperand .byte a]) <$> Reader.word
  | .offset16 => (fun a => [ctx.directOperand .word a]) <$> Reader.word
  | .fixed r => pure [.register r]
  | .implied value => pure [.immediate (.byte value)]
  | .farPointer => do
    let offset ← Reader.word
    let segment ← Reader.word
    return [.immediate ((Immediate.word segment).withRole .farSegment),
      .immediate ((Immediate.word offset).withRole .farOffset)]
  | .external =>
    pure [.immediate ((Immediate.byte ctx.externalOpcode).withRole .unsigned)]

namespace Row

/-- The row that an opcode's row and a ModRM byte settle on. -/
def select (row : Row) (modRM : ModRM) : Row :=
  match row.group with
  | none => row
  | some group => group.row modRM.reg

/-- The operands of a row, in the order in which they are listed. -/
def operands (row : Row) (ctx : OperandContext) : Reader (List Operand) := do
  let first ← row.first.resolve ctx
  let second ← row.second.resolve ctx
  let listed := first ++ second
  return if row.reversesRegisters && !ctx.modRM.isMemory then listed.reverse else listed

/-- Reads the ModRM byte and the displacement of a row that has them. -/
def readModRM (row : Row) : Reader (ModRM × Displacement) :=
  if row.hasModRM then ModRM.read else pure (⟨0⟩, .none)

end Row

namespace Instruction

/-- Reads what follows the opcode. -/
def readBody (prefixes : Prefixes) (opcode : UInt8) : Reader Instruction := do
  let (modRM, displacement) ← (Row.ofOpcode opcode).readModRM
  let row := (Row.ofOpcode opcode).select modRM
  if row.mnemonic = .invalid then
    throw (.unknownOpcode opcode)
  else
    let override := prefixes.segment?
    let operands ← row.operands { opcode, modRM, displacement, override }
    let length ← Reader.taken
    return { opcode, length, mnemonic := row.mnemonic, width := row.width, operands, prefixes }

/-- Reads one instruction. -/
def read : Reader Instruction := do
  let run ← Reader.run Prefix.isByte
  let opcode ← Reader.byte
  Reader.naming opcode (readBody (.ofRun run) opcode)

end Instruction

-- =========================================================== progress

/-- Operands take immediate bytes at most. -/
theorem Pattern.advances_resolve (ctx : OperandContext) (p : Pattern) :
    Reader.Advances (p.resolve ctx) := by
  cases p with
  | mem =>
      simp only [resolve]
      split
      · exact Reader.advances_pure _
      · exact Reader.advances_throw _
  | segment =>
      simp only [resolve]
      split
      · exact Reader.advances_pure _
      · exact Reader.advances_throw _
  | segmentTarget =>
      simp only [resolve]
      split
      · exact Reader.advances_throw _
      · exact Reader.advances_throw _
      · exact Reader.advances_pure _
  | farPointer =>
      exact Reader.advances_bind Reader.advances_word fun _ =>
        Reader.advances_bind Reader.advances_word fun _ => Reader.advances_pure _
  | imm8 | imm8Unsigned | imm16 | imm16Unsigned | offset8 | offset16 => exact Reader.advances_map _
  | imm8Extended | rel8 | rel16 => exact Reader.advances_map _
  | none | rm8 | rm16 | reg8 | reg16 | fixed | implied | external =>
      exact Reader.advances_pure _

theorem Row.advances_operands (row : Row) (ctx : OperandContext) :
    Reader.Advances (row.operands ctx) :=
  Reader.advances_bind (Pattern.advances_resolve ctx _) fun _ =>
    Reader.advances_bind (Pattern.advances_resolve ctx _) fun _ =>
      Reader.advances_pure _

/-- A row without a ModRM byte takes nothing for it. -/
theorem Row.advances_readModRM (row : Row) : Reader.Advances row.readModRM :=
  Reader.advances_ite _ ModRM.advances_read (Reader.advances_pure _)

namespace Instruction

/-- Behind the opcode, bytes are taken for the ModRM byte and then for the
operands. -/
theorem advances_readBody (prefixes : Prefixes) (opcode : UInt8) :
    Reader.Advances (readBody prefixes opcode) := by
  refine Reader.advances_bind (Row.advances_readModRM _) fun md => ?_
  refine Reader.advances_ite _ (Reader.advances_throw _) ?_
  refine Reader.advances_bind (Row.advances_operands _ _) fun _ => ?_
  exact Reader.advances_bind Reader.advances_taken fun _ => Reader.advances_pure _

/-- Decoding takes prefixes, the opcode and what belongs to it, in this
order. -/
instance advances_read : Reader.Advances read :=
  Reader.advances_bind (Reader.advances_run _) fun _ =>
    Reader.advances_bind Reader.advances_byte fun opcode =>
      Reader.advances_naming opcode (advances_readBody _ opcode)

/-- A decoded instruction has taken at least its opcode byte. -/
theorem taken_lt_of_read_ok {feed next : Feed} {i : Instruction}
    (h : read feed = .ok i next) : feed.taken < next.taken := by
  simp only [read, bind, EStateM.bind] at h
  split at h
  case h_2 => contradiction
  case h_1 run between hrun =>
    split at h
    case h_2 => contradiction
    case h_1 opcode behind hbyte =>
      have hle : between.taken ≤ behind.taken - 1 ∧ 0 < behind.taken := by
        obtain ⟨rest, n⟩ := between
        cases rest with
        | nil => simp [Reader.byte] at hbyte
        | cons b rest =>
            simp only [Reader.byte, EStateM.Result.ok.injEq] at hbyte
            obtain ⟨-, rfl⟩ := hbyte
            simp
      obtain ⟨used, -, hstart⟩ := (Reader.advances_run Prefix.isByte).reaches feed
      obtain ⟨more, -, hend⟩ :=
        (Reader.advances_naming opcode (advances_readBody (.ofRun run) opcode)).reaches behind
      simp only [Reader.after, hrun] at hstart
      simp only [Reader.after, h] at hend
      omega

end Instruction

end Disasm8086
