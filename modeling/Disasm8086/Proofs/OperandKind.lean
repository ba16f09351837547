/-
What the operands of an operation can be. The kind of an operand is what
remains of it without its value: a register, a memory operand or an
immediate, how wide it is, and the role of an immediate. The kinds of an
instruction's operands are settled by its row of the opcode map and by
whether the r/m field lies in memory, so a law about kinds is decided by
one traversal of the map (`Layout.kinds_law`).

The laws say how much of its operands an operation gives away: far
branches are told by them (`kinds_of_isFarBranch`), and otherwise the
role and width of a constant and the size of a memory operand follow
from mnemonic and width (`fits_operand`). What is left of an operand
agrees with the prefixes and with its own width (`Operand.Regular`).
-/
import Disasm8086.Proofs.Layout

namespace Disasm8086

open Reader

-- ============================================================== kinds

/-- An operand without its value. -/
inductive Operand.Kind where
  | register (width : Width)
  | memory (size : Width)
  | immediate (role : Immediate.Role) (width : Width)
  deriving DecidableEq, Repr

/-- The kind of an operand. -/
def Operand.kind : Operand → Kind
  | .register r => .register r.width
  | .memory m => .memory m.size
  | .immediate c => .immediate c.role c.width

namespace Pattern

/-- The kinds of the operands that a pattern stands for, in memory form
or in register form. -/
def kinds (inMemory : Bool) : Pattern → List Operand.Kind
  | .none => []
  | .rm8 => [if inMemory then .memory .byte else .register .byte]
  | .rm16 => [if inMemory then .memory .word else .register .word]
  | .mem | .offset16 => [.memory .word]
  | .offset8 => [.memory .byte]
  | .reg8 => [.register .byte]
  | .reg16 | .segment | .segmentTarget => [.register .word]
  | .fixed r => [.register r.width]
  | .imm8 | .implied _ => [.immediate .plain .byte]
  | .imm16 | .imm8Extended => [.immediate .plain .word]
  | .imm8Unsigned | .external => [.immediate .unsigned .byte]
  | .imm16Unsigned => [.immediate .unsigned .word]
  | .rel8 => [.immediate .relative .byte]
  | .rel16 => [.immediate .relative .word]
  | .farPointer => [.immediate .farSegment .word, .immediate .farOffset .word]

end Pattern

namespace ModRM

variable (m : ModRM) {size : Width}

/-- The r/m field names a register of the width asked for. -/
theorem width_rmRegister (h : size ≠ .none) : (m.rmRegister size).width = size := by
  unfold rmRegister
  generalize m.rm = n
  revert n
  cases size <;> first | contradiction | decide

theorem width_regRegister (h : size ≠ .none) : (m.regRegister size).width = size := by
  unfold regRegister
  generalize m.reg = n
  revert n
  cases size <;> first | contradiction | decide

end ModRM

theorem Segment.width_register (s : Segment) : s.register.width = .word := by
  cases s <;> rfl

/-- The kind of the r/m operand is settled by its form and width. -/
theorem OperandContext.kind_rmOperand (ctx : OperandContext) (size : Width) (h : size ≠ .none) :
    (ctx.rmOperand size).kind
      = if ctx.modRM.isMemory then .memory size else .register size := by
  rcases ctx.rmOperand_cases size with ⟨hform, m, hm, hsize, -⟩ | ⟨hform, hr⟩
  · rw [hform, hm, Operand.kind, hsize]
    rfl
  · rw [hform, hr, Operand.kind, ctx.modRM.width_rmRegister h]
    rfl

namespace Pattern

/-- A pattern yields operands of its kinds. -/
theorem map_kind_operandsOf (ctx : OperandContext) (field : List UInt8) {p : Pattern}
    (h : p.accepts ctx.modRM = true) :
    (p.operandsOf ctx field).map Operand.kind = p.kinds ctx.modRM.isMemory := by
  cases p with
  | rm8 | rm16 => exact congrArg ([·]) (ctx.kind_rmOperand _ (by decide))
  | mem =>
      have hform : ctx.modRM.isMemory = true := h
      have hkind := ctx.kind_rmOperand .word (by decide)
      rw [hform, if_pos rfl] at hkind
      exact congrArg ([·]) hkind
  | reg8 | reg16 =>
      exact congrArg (fun w => [Operand.Kind.register w]) (ctx.modRM.width_regRegister (by decide))
  | segment =>
      obtain ⟨s, hs⟩ := Option.isSome_iff_exists.mp h
      simp [operandsOf, kinds, hs, Operand.kind, Segment.width_register]
  | segmentTarget =>
      obtain ⟨s, hs, -⟩ := (Option.any_eq_true ..).mp h
      simp [operandsOf, kinds, hs, Operand.kind, Segment.width_register]
  | _ => rfl

end Pattern

namespace Row

/-- The kinds of a row's operands, in the order in which they are listed. -/
def kinds (row : Row) (inMemory : Bool) : List Operand.Kind :=
  let listed := row.first.kinds inMemory ++ row.second.kinds inMemory
  if row.reversesRegisters && !inMemory then listed.reverse else listed

/-- A row yields operands of its kinds, in the order in which it lists
them. -/
theorem map_kind_operandsOf (row : Row) (ctx : OperandContext) (field : List UInt8)
    (h : row.accepts ctx.modRM = true) :
    (row.operandsOf ctx field).map Operand.kind = row.kinds ctx.modRM.isMemory := by
  rw [accepts, Bool.and_eq_true] at h
  unfold operandsOf encodedOperands kinds
  rw [apply_ite (List.map Operand.kind), List.map_reverse, List.map_append,
    Pattern.map_kind_operandsOf ctx _ h.1, Pattern.map_kind_operandsOf ctx _ h.2]

end Row

namespace Layout

/-- So the kinds of operands can be told from the row and the form. -/
theorem map_kind_operands (l : Layout) :
    l.instruction.operands.map Operand.kind = l.row.kinds l.modRM.isMemory :=
  l.row.map_kind_operandsOf l.context l.field l.accepted

/-- A law that holds along the map holds of the row of every layout. -/
theorem row_law (law : UInt8 → Row → Bool)
    (h : Row.every (fun op _ row => decide (row.mnemonic = .invalid) || law op row) = true)
    (l : Layout) : law l.opcode l.row = true := by
  have hrow := Row.every_entry _ h l.opcode l.modRM.reg
  rwa [← l.row_eq_entry, decide_eq_false l.assigned, Bool.false_or] at hrow

/-- A law about kinds of operands holds of every layout if it holds along
the map in memory form and in register form. -/
theorem kinds_law (law : UInt8 → Row → List Operand.Kind → Bool)
    (h : Row.every (fun op _ row => decide (row.mnemonic = .invalid) ||
      [true, false].all fun inMemory => law op row (row.kinds inMemory)) = true)
    (l : Layout) : law l.opcode l.row (l.instruction.operands.map Operand.kind) = true := by
  have hrow := row_law (fun op row => [true, false].all fun inMemory =>
    law op row (row.kinds inMemory)) h l
  rw [l.map_kind_operands]
  exact List.all_eq_true.mp hrow _ (by cases l.modRM.isMemory <;> decide)

/-- A law that holds along the map holds of every instruction. -/
theorem law_of_every (law : Mnemonic → Width → List Operand.Kind → Bool)
    (h : Row.every (fun _ _ row => decide (row.mnemonic = .invalid) ||
      [true, false].all fun inMemory => law row.mnemonic row.width (row.kinds inMemory)) = true)
    (l : Layout) : law l.instruction.mnemonic l.instruction.width
      (l.instruction.operands.map Operand.kind) = true :=
  kinds_law (fun _ row => law row.mnemonic row.width) h l

end Layout

-- =============================================================== laws

namespace Mnemonic

/-- The role of the constants that an operation takes. -/
def constantRole : Mnemonic → Immediate.Role
  | .CALL | .JMP | .JO | .JNO | .JB | .JAE | .JE | .JNE | .JBE | .JA | .JS | .JNS | .JP | .JNP
  | .JL | .JGE | .JLE | .JG | .JCXZ | .LOOP | .LOOPZ | .LOOPNZ => .relative
  | .RET | .RETF | .INT | .AAM | .AAD | .IN | .OUT | .ESC => .unsigned
  | _ => .plain

/-- How wide these constants are. A distance of `JMP` can have either
width. -/
def constantWidth (width : Width) : Mnemonic → Width
  | .CALL | .RET | .RETF => .word
  | .ADD | .OR | .ADC | .SBB | .AND | .SUB | .XOR | .CMP | .TEST | .MOV => width
  | _ => .byte

end Mnemonic

/-- Whether an operand of this kind suits an operation and its width. -/
def Operand.Kind.fits (m : Mnemonic) (width : Width) : Kind → Bool
  | .register _ => true
  | .memory size => decide (size = if m = .ESC then .word else width)
  | .immediate role constant =>
    m.isFarBranch || (decide (role = m.constantRole) &&
      (decide (m = .JMP) || decide (constant = m.constantWidth width)))

/-- The kinds of a far pointer. -/
def Operand.Kind.farPointer : List Kind :=
  [.immediate .farSegment .word, .immediate .farOffset .word]

namespace Layout

variable (l : Layout)

/-- Every operand suits its operation. -/
theorem fits_operand {operand : Operand} (h : operand ∈ l.instruction.operands) :
    operand.kind.fits l.instruction.mnemonic l.instruction.width = true := by
  have hlaw := law_of_every (fun m width kinds => kinds.all fun kind => kind.fits m width)
    (by decide +kernel) l
  exact List.all_eq_true.mp hlaw _ (List.mem_map_of_mem h)

/-- Far branches take a far pointer or a memory operand. -/
theorem kinds_of_isFarBranch (h : l.instruction.mnemonic.isFarBranch = true) :
    l.instruction.operands.map Operand.kind = Operand.Kind.farPointer
      ∨ l.instruction.operands.map Operand.kind = [.memory .word] := by
  have hlaw := law_of_every (fun m _ kinds => !m.isFarBranch ||
    decide (kinds = Operand.Kind.farPointer ∨ kinds = [.memory .word])) (by decide +kernel) l
  simpa [h] using hlaw

end Layout

-- ============================================================= values

/-- A byte constant is the sign extension of a byte. -/
def Immediate.IsExtended (c : Immediate) : Prop :=
  c.width = .byte → c.value = c.value.toUInt16.toUInt8.toInt8.toInt16

/-- A memory operand has the override of the instruction, and a constant
agrees with its width. -/
def Operand.Regular (override : Option Segment) : Operand → Prop
  | .register _ => True
  | .memory m => m.override = override
  | .immediate c => c.IsExtended

/-- A memory operand in the r/m field has the override. -/
theorem OperandContext.regular_rmOperand (ctx : OperandContext) (size : Width) :
    (ctx.rmOperand size).Regular ctx.override := by
  rcases ctx.rmOperand_cases size with ⟨-, m, hm, -, hoverride⟩ | ⟨-, hr⟩
  · rw [hm]
    exact hoverride
  · rw [hr]
    trivial

/-- The operands of a pattern are regular. -/
theorem Pattern.regular_operandsOf (ctx : OperandContext) (field : List UInt8) (p : Pattern) :
    ∀ operand ∈ p.operandsOf ctx field, operand.Regular ctx.override := by
  have hbyte : ∀ b : UInt8,
      b.toInt8.toInt16 = b.toInt8.toInt16.toUInt16.toUInt8.toInt8.toInt16 := by
    intro b
    rw [toUInt8_toInt16]
  intro operand hoperand
  cases p with
  | none => cases hoperand
  | rm8 | rm16 | mem =>
      rw [List.mem_singleton.mp hoperand]
      exact ctx.regular_rmOperand _
  | segment | segmentTarget =>
      obtain ⟨s, -, rfl⟩ := List.mem_map.mp hoperand
      trivial
  | farPointer =>
      rcases List.mem_cons.mp hoperand with rfl | hoperand
      · nofun
      · rw [List.mem_singleton.mp hoperand]
        nofun
  | imm8 | imm8Unsigned | rel8 | implied | external =>
      rw [List.mem_singleton.mp hoperand]
      exact fun _ => hbyte _
  | imm16 | imm8Extended | imm16Unsigned | rel16 =>
      rw [List.mem_singleton.mp hoperand]
      nofun
  | reg8 | reg16 | fixed =>
      rw [List.mem_singleton.mp hoperand]
      trivial
  | offset8 | offset16 =>
      rw [List.mem_singleton.mp hoperand]
      rfl

/-- Every operand stands for a pattern of the row. -/
theorem Layout.exists_pattern (l : Layout) {operand : Operand}
    (h : operand ∈ l.instruction.operands) : ∃ p field,
      (p = l.row.first ∨ p = l.row.second) ∧ operand ∈ Pattern.operandsOf l.context field p := by
  have hlisted : operand ∈ l.row.operandsOf l.context l.field := h
  have hencoded : operand ∈ l.row.encodedOperands l.context l.field := by
    unfold Row.operandsOf at hlisted
    split at hlisted
    · exact List.mem_reverse.mp hlisted
    · exact hlisted
  rcases List.mem_append.mp hencoded with hfirst | hsecond
  · exact ⟨_, _, Or.inl rfl, hfirst⟩
  · exact ⟨_, _, Or.inr rfl, hsecond⟩

/-- So are those of an instruction. -/
theorem Layout.regular_operand (l : Layout) {operand : Operand}
    (h : operand ∈ l.instruction.operands) : operand.Regular l.instruction.segment? := by
  obtain ⟨p, field, -, hoperand⟩ := l.exists_pattern h
  exact Pattern.regular_operandsOf l.context field p operand hoperand

end Disasm8086
