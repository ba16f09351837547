/-
The direction bit. Arithmetic and moves between an r/m operand and a
register have two opcodes for each width, which differ in one bit: one
stores to the r/m operand, the other loads from it. Setting the bit
exchanges source and destination of a memory form, and nothing else. A
register form has no such choice in its text: both opcodes list the r/m
register first.

# The argument

`Mirrors` is how the rows of two such opcodes are related; that they are is
decided on the map. Both rows ask for a ModRM byte, refuse none and take no
field (`Row.TakesModRMAlone`), so whether a stream is cut off depends on
the ModRM byte alone. The r/m operand shows nothing of the opcode and is
the same for both. What is left is the order of the operands, which
`Mirrors` gives in each form.
-/
import Disasm8086.Proofs.OpcodeMap
import Disasm8086.Proofs.Layout

namespace Disasm8086

-- ============================================================ opcodes

/-- The opcodes with a clear direction bit: the r/m operand is the
destination, the register is the source. -/
inductive Opcode.Stores : UInt8 → Prop where
  | arithmeticByte (n : Fin 8) : Stores (UInt8.ofNat (8 * n.val))
  | arithmeticWord (n : Fin 8) : Stores (UInt8.ofNat (8 * n.val + 1))
  | moveByte : Stores 0x88
  | moveWord : Stores 0x89

/-- The rows have one operation and one width, and the operands of the
second row are those of the first in the other order. -/
inductive Mirrors : Row → Row → Prop where
  | byte {mnemonic : Mnemonic} (hassigned : mnemonic ≠ .invalid) :
      Mirrors (.binary mnemonic .byte .rm8 .reg8) (.binary mnemonic .byte .reg8 .rm8)
  | word {mnemonic : Mnemonic} (hassigned : mnemonic ≠ .invalid) :
      Mirrors (.binary mnemonic .word .rm16 .reg16) (.binary mnemonic .word .reg16 .rm16)

namespace Opcode.Stores

/-- What makes the rows of an opcode and of the one with the bit set
mirror each other, in a form that can be computed. -/
theorem mirrors_of_rows {op : UInt8}
    (h : (Row.ofOpcode op).mnemonic ≠ .invalid
      ∧ (Row.ofOpcode op = .binary (Row.ofOpcode op).mnemonic .byte .rm8 .reg8
          ∧ Row.ofOpcode (op + 2) = .binary (Row.ofOpcode op).mnemonic .byte .reg8 .rm8
        ∨ Row.ofOpcode op = .binary (Row.ofOpcode op).mnemonic .word .rm16 .reg16
          ∧ Row.ofOpcode (op + 2) = .binary (Row.ofOpcode op).mnemonic .word .reg16 .rm16)) :
    Mirrors (Row.ofOpcode op) (Row.ofOpcode (op + 2)) := by
  obtain ⟨hassigned, ⟨hrow, hrow'⟩ | ⟨hrow, hrow'⟩⟩ := h
  · rw [hrow', hrow]
    exact .byte hassigned
  · rw [hrow', hrow]
    exact .word hassigned

/-- Rows two apart mirror each other. -/
theorem mirrors {op : UInt8} (h : Stores op) :
    Mirrors (Row.ofOpcode op) (Row.ofOpcode (op + 2)) := by
  apply mirrors_of_rows
  cases h with
  | arithmeticByte n =>
      revert n
      decide +kernel
  | arithmeticWord n =>
      revert n
      decide +kernel
  | moveByte => decide +kernel
  | moveWord => decide +kernel

theorem isByte_eq_false {op : UInt8} (h : Stores op) :
    Prefix.isByte op = false ∧ Prefix.isByte (op + 2) = false := by
  cases h with
  | arithmeticByte n =>
      revert n
      decide
  | arithmeticWord n =>
      revert n
      decide
  | moveByte => decide
  | moveWord => decide

end Opcode.Stores

-- =============================================================== rows

/-- The row takes any ModRM byte and no field. -/
structure Row.TakesModRMAlone (row : Row) : Prop where
  hasModRM : row.hasModRM = true
  ungrouped : row.group = none
  assigned : row.mnemonic ≠ .invalid
  accepts : ∀ m, row.accepts m = true
  fieldSize : row.fieldSize = 0

namespace Mirrors

variable {row row' : Row} (h : Mirrors row row')
include h

/-- Rows that mirror each other have a ModRM byte and nothing behind it. -/
theorem takesModRMAlone : row.TakesModRMAlone ∧ row'.TakesModRMAlone := by
  cases h with
  | byte hassigned | word hassigned =>
      exact ⟨⟨rfl, rfl, hassigned, fun _ => rfl, rfl⟩, ⟨rfl, rfl, hassigned, fun _ => rfl, rfl⟩⟩

/-- And they have one operation and one width. -/
theorem meaning_eq : row.mnemonic = row'.mnemonic ∧ row.width = row'.width := by
  cases h with
  | byte | word => exact ⟨rfl, rfl⟩

/-- A store lists the r/m operand first in both forms. -/
theorem operandsOf_store (ctx : OperandContext) :
    row.operandsOf ctx []
      = [ctx.rmOperand row.width, .register (ctx.modRM.regRegister row.width)] := by
  cases h with
  | byte | word => rfl

/-- A load from memory lists the register first. -/
theorem operandsOf_load_of_memory (ctx : OperandContext) (hform : ctx.modRM.isMemory = true) :
    row'.operandsOf ctx []
      = [.register (ctx.modRM.regRegister row.width), ctx.rmOperand row.width] := by
  rw [Row.operandsOf_of_memory hform]
  cases h with
  | byte | word => rfl

/-- Between registers, a load lists the r/m operand first as a store does. -/
theorem operandsOf_load_of_register (ctx : OperandContext) (hform : ctx.modRM.isMemory = false) :
    row'.operandsOf ctx []
      = [ctx.rmOperand row.width, .register (ctx.modRM.regRegister row.width)] := by
  unfold Row.operandsOf
  rw [hform]
  cases h with
  | byte | word => rfl

end Mirrors

-- ======================================================= instructions

namespace Opening

/-- What the operands behind an opening, a ModRM byte and its displacement
are made from. -/
def contextWith (o : Opening) (m : ModRM) (displacement : List UInt8) : OperandContext where
  opcode := o.opcode
  modRM := m
  displacement := m.displacementOf displacement
  override := (Prefixes.ofRun o.run).segment?

/-- The instruction of an opening, a ModRM byte and its displacement, if
the opcode takes nothing else. -/
def instructionWith (o : Opening) (m : ModRM) (displacement : List UInt8) : Instruction where
  opcode := o.opcode
  length := (o.bytes ++ m.byte :: displacement).length
  mnemonic := (Row.ofOpcode o.opcode).mnemonic
  width := (Row.ofOpcode o.opcode).width
  operands := (Row.ofOpcode o.opcode).operandsOf (o.contextWith m displacement) []
  prefixes := .ofRun o.run

/-- Such an opcode with its ModRM byte and displacement is an instruction. -/
theorem read_instructionWith (o : Opening) (h : (Row.ofOpcode o.opcode).TakesModRMAlone)
    (m : ModRM) {displacement : List UInt8} (hsize : displacement.length = m.displacementSize)
    (rest : List UInt8) :
    Instruction.read (.ofBytes (o.bytes ++ m.byte :: displacement ++ rest))
      = .ok (o.instructionWith m displacement)
          ⟨rest, (o.bytes ++ m.byte :: displacement).length⟩ := by
  have hentry : Row.entry o.opcode m.reg = Row.ofOpcode o.opcode := by
    unfold Row.entry
    rw [h.ungrouped]
  have hassigned := h.assigned
  have haccepts := h.accepts m
  have hfield := h.fieldSize
  rw [← hentry] at hassigned haccepts hfield
  let l : Layout := .withModRM o h.hasModRM m displacement hsize [] hassigned haccepts hfield.symm
  have hrow : l.row = Row.ofOpcode o.opcode := hentry
  have hbytes : l.bytes = o.bytes ++ m.byte :: displacement := List.append_nil _
  have hinstruction : l.instruction = o.instructionWith m displacement := by
    rw [Layout.instruction, hrow, hbytes]
    rfl
  rw [← hbytes, ← hinstruction]
  exact l.read_append rest

end Opening

/-- The instructions have the same meaning, except that in memory form
their operands stand in opposite orders. -/
structure Instruction.Turned (m : ModRM) (i j : Instruction) : Prop where
  mnemonic : i.mnemonic = j.mnemonic
  width : i.width = j.width
  length : i.length = j.length
  prefixes : i.prefixes = j.prefixes
  /-- In memory form the first instruction lists memory first. -/
  memory : m.mod.val ≠ 3 →
    (∃ reference, i.operands = [.memory reference, .register (m.regRegister i.width)])
      ∧ j.operands = i.operands.reverse
  /-- In register form both list the r/m register first. -/
  register : m.mod.val = 3 →
    i.operands = [.register (m.rmRegister i.width), .register (m.regRegister i.width)]
      ∧ j.operands = i.operands

/-- Two openings with one run and mirrored rows. -/
theorem Mirrors.turned (o o' : Opening)
    (h : Mirrors (Row.ofOpcode o.opcode) (Row.ofOpcode o'.opcode)) (hrun : o.run = o'.run)
    (m : ModRM) (displacement : List UInt8) :
    (o.instructionWith m displacement).Turned m (o'.instructionWith m displacement) := by
  let ctx := o.contextWith m displacement
  let ctx' := o'.contextWith m displacement
  -- the r/m operand is made from everything but the opcode
  have hrm : ∀ size, ctx'.rmOperand size = ctx.rmOperand size := by
    intro size
    unfold ctx ctx' Opening.contextWith
    rw [hrun]
    rfl
  have hstore : (o.instructionWith m displacement).operands
      = [ctx.rmOperand (Row.ofOpcode o.opcode).width,
          .register (m.regRegister (Row.ofOpcode o.opcode).width)] :=
    h.operandsOf_store ctx
  constructor
  case mnemonic => exact h.meaning_eq.1
  case width => exact h.meaning_eq.2
  case length => simp [Opening.instructionWith, Opening.bytes, hrun]
  case prefixes => exact congrArg Prefixes.ofRun hrun
  case memory =>
    intro hmod
    have hform : m.isMemory = true := by simp [m.isMemory_eq, hmod]
    obtain ⟨reference, hreference, -⟩ := ctx.exists_memory (Row.ofOpcode o.opcode).width hform
    have hload := h.operandsOf_load_of_memory ctx' hform
    rw [hrm] at hload
    rw [hstore]
    refine ⟨⟨reference, ?_⟩, hload⟩
    rw [OperandContext.rmOperand, hreference]
    rfl
  case register =>
    intro hmod
    have hform : m.isMemory = false := by simp [m.isMemory_eq, hmod]
    have hload := h.operandsOf_load_of_register ctx' hform
    rw [hrm] at hload
    rw [hstore]
    refine ⟨?_, hload⟩
    rw [ctx.rmOperand_of_register _ hform]
    rfl

-- ============================================================ streams

namespace Cursor

/-- The cursor at the start of these bytes, behind others. -/
def behind (before bytes : List UInt8) : Cursor :=
  (Cursor.ofBytes (before ++ bytes)).advance before.length
    (length_le_remaining (rest_ofBytes (before ++ bytes)))

theorem rest_behind (before bytes : List UInt8) : (behind before bytes).rest = bytes :=
  List.drop_left

theorem position_behind (before bytes : List UInt8) :
    (behind before bytes).position = before.length :=
  Nat.zero_add _

end Cursor

namespace Opening

variable (o : Opening) (h : (Row.ofOpcode o.opcode).TakesModRMAlone) (before : List UInt8)
  (m : ModRM) {tail : List UInt8}
include h

/-- A displacement that is cut is reported with the opcode. -/
theorem decode_of_short (hshort : tail.length < m.displacementSize) :
    (Cursor.behind before (o.bytes ++ m.byte :: tail)).decode.1
      = .error ⟨before.length, .endOfStream (some o.opcode)⟩ := by
  have hhead : (m.byte :: tail).length < (Row.ofOpcode o.opcode).headSize (m.byte :: tail) := by
    rw [Row.headSize, if_pos h.hasModRM, List.length_cons, Nat.add_comm]
    exact Nat.add_lt_add_left hshort 1
  obtain ⟨next, hread, -⟩ := o.read_of_short_head hhead
  rw [← Cursor.rest_behind before (o.bytes ++ m.byte :: tail)] at hread
  rw [Cursor.decode_of_read_error hread, Cursor.position_behind]

/-- With its displacement, the instruction is decoded from any place. -/
theorem decode_of_long (hlong : m.displacementSize ≤ tail.length) :
    (Cursor.behind before (o.bytes ++ m.byte :: tail)).decode.1
      = .ok (o.instructionWith m (tail.take m.displacementSize)) := by
  have hsize : (tail.take m.displacementSize).length = m.displacementSize :=
    List.length_take_of_le hlong
  have hread := o.read_instructionWith h m hsize (tail.drop m.displacementSize)
  rw [List.append_assoc, List.cons_append, List.take_append_drop,
    ← Cursor.rest_behind before (o.bytes ++ m.byte :: tail)] at hread
  rw [Cursor.decode_of_read_ok hread]

end Opening

/-- Setting the direction bit of an opcode, wherever in a stream and behind
whatever prefixes it stands, makes no difference to whether the
instruction is cut off, nor to its operation, width, length and prefixes;
it reverses the operands of memory forms and keeps those of register
forms. -/
theorem decode_setDirection {op : UInt8} (hop : Opcode.Stores op) {run : List UInt8}
    (hrun : ∀ b ∈ run, Prefix.isByte b = true) (before : List UInt8) (m : ModRM)
    (tail : List UInt8) :
    (tail.length < m.displacementSize →
        (Cursor.behind before (run ++ op :: m.byte :: tail)).decode.1
            = .error ⟨before.length, .endOfStream (some op)⟩
          ∧ (Cursor.behind before (run ++ (op + 2) :: m.byte :: tail)).decode.1
            = .error ⟨before.length, .endOfStream (some (op + 2))⟩)
      ∧ (m.displacementSize ≤ tail.length → ∃ i j : Instruction,
          (Cursor.behind before (run ++ op :: m.byte :: tail)).decode.1 = .ok i
            ∧ (Cursor.behind before (run ++ (op + 2) :: m.byte :: tail)).decode.1 = .ok j
            ∧ i.opcode = op ∧ j.opcode = op + 2 ∧ i.Turned m j) := by
  let o : Opening := ⟨run, op, hrun, hop.isByte_eq_false.1⟩
  let o' : Opening := ⟨run, op + 2, hrun, hop.isByte_eq_false.2⟩
  have hbytes : run ++ op :: m.byte :: tail = o.bytes ++ m.byte :: tail :=
    (List.append_assoc run [op] _).symm
  have hbytes' : run ++ (op + 2) :: m.byte :: tail = o'.bytes ++ m.byte :: tail :=
    (List.append_assoc run [op + 2] _).symm
  obtain ⟨hstore, hload⟩ := hop.mirrors.takesModRMAlone
  rw [hbytes, hbytes']
  constructor
  · intro hshort
    exact ⟨o.decode_of_short hstore before m hshort, o'.decode_of_short hload before m hshort⟩
  · intro hlong
    exact ⟨_, _, o.decode_of_long hstore before m hlong, o'.decode_of_long hload before m hlong,
      rfl, rfl, Mirrors.turned o o' hop.mirrors rfl m _⟩

/-- A subtraction between a register and memory behind an override, whole
and cut off in front of its displacement. -/
theorem decode_setDirection_of_subtraction :
    (∃ i j : Instruction,
      (Cursor.behind [0x90] [0x26, 0x29, 0x44, 0x05, 0xFF]).decode.1 = .ok i
        ∧ (Cursor.behind [0x90] [0x26, 0x2B, 0x44, 0x05, 0xFF]).decode.1 = .ok j
        ∧ i.length = j.length ∧ j.operands = i.operands.reverse)
      ∧ (Cursor.behind [0x90] [0x26, 0x29, 0x44]).decode.1
        = .error ⟨1, .endOfStream (some 0x29)⟩
      ∧ (Cursor.behind [0x90] [0x26, 0x2B, 0x44]).decode.1
        = .error ⟨1, .endOfStream (some 0x2B)⟩ := by
  have hop : Opcode.Stores 0x29 := .arithmeticWord ⟨5, by decide⟩
  have hrun : ∀ b ∈ [0x26], Prefix.isByte b = true := List.all_eq_true.mp (by decide)
  constructor
  · obtain ⟨i, j, hi, hj, -, -, hturned⟩ :=
      (decode_setDirection hop hrun [0x90] ⟨0x44⟩ [0x05, 0xFF]).2 (by decide)
    exact ⟨i, j, hi, hj, hturned.length, (hturned.memory (by decide)).2⟩
  · exact (decode_setDirection hop hrun [0x90] ⟨0x44⟩ []).1 (by decide)

end Disasm8086
