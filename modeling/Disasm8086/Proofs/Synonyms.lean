/-
Synonyms: encodings that mean the same. The instruction set spends short
opcodes on what is used most, the accumulator, registers by number, small
constants, and each of these has a longer encoding through a ModRM byte
as well. `Synonyms` lists the pairs. Both encodings of a pair decode, behind
any run of prefixes and in front of anything, to instructions that
differ in opcode and length alone, and so read the same as text.

# The argument

Two layouts behind one run that agree in operation, width and operands
decode alike (`Layout.Agree`); what is left to show for each pair is that
the operands come out the same, although they are made in different ways.

- A register implied by the opcode against a ModRM byte in register form:
  the rows of the map differ in patterns that stand for the same operand
  (`Pattern.standsFor`), which is decided on the map. Exchanges are among these: the
  row with the ModRM byte lists its registers the other way round.
- An offset behind the opcode against a ModRM byte that asks for a direct
  address: the same two bytes are read as field or as displacement.
- Two opcodes with one ModRM byte: the groups have the same rows, up to
  the way the constant is encoded.
-/
import Disasm8086.Proofs.Encoding
import Disasm8086.Proofs.PrefixCode
import Disasm8086.Render
import Mathlib.Tactic.MkIffOfInductiveProp

namespace Disasm8086

open Reader

-- ============================================================= pairs

/-- The byte that sign extension puts behind a byte. -/
def signFill (b : UInt8) : UInt8 := if b < 0x80 then 0x00 else 0xFF

/-- Two encodings of one operation, prefixes apart. -/
inductive Synonyms : List UInt8 → List UInt8 → Prop where
  /-- Arithmetic on `AL`. -/
  | arithmeticByte (n : Fin 8) (b : UInt8) :
      Synonyms [UInt8.ofNat (8 * n.val + 4), b] [0x80, modRMByte 3 n.val 0, b]
  /-- Arithmetic on `AX`. -/
  | arithmeticWord (n : Fin 8) (low high : UInt8) :
      Synonyms [UInt8.ofNat (8 * n.val + 5), low, high] [0x81, modRMByte 3 n.val 0, low, high]
  /-- Arithmetic with a byte has two opcodes. -/
  | twin (m : ModRM) (displacement : List UInt8)
      (hsize : displacement.length = m.displacementSize) (b : UInt8) :
      Synonyms (0x82 :: m.byte :: displacement ++ [b]) (0x80 :: m.byte :: displacement ++ [b])
  /-- Arithmetic on a word with a constant that fits a signed byte. -/
  | extended (m : ModRM) (displacement : List UInt8)
      (hsize : displacement.length = m.displacementSize) (b : UInt8) :
      Synonyms (0x83 :: m.byte :: displacement ++ [b])
        (0x81 :: m.byte :: displacement ++ [b, signFill b])
  /-- Tests of the accumulator. -/
  | testByte (b : UInt8) : Synonyms [0xA8, b] [0xF6, modRMByte 3 0 0, b]
  | testWord (low high : UInt8) : Synonyms [0xA9, low, high] [0xF7, modRMByte 3 0 0, low, high]
  /-- Loads of the accumulator from a direct address. -/
  | loadByte (low high : UInt8) : Synonyms [0xA0, low, high] [0x8A, 0x06, low, high]
  | loadWord (low high : UInt8) : Synonyms [0xA1, low, high] [0x8B, 0x06, low, high]
  /-- Stores of the accumulator to a direct address. -/
  | storeByte (low high : UInt8) : Synonyms [0xA2, low, high] [0x88, 0x06, low, high]
  | storeWord (low high : UInt8) : Synonyms [0xA3, low, high] [0x89, 0x06, low, high]
  /-- Moves of a constant to a register by number. -/
  | moveByte (r : Fin 8) (b : UInt8) :
      Synonyms [UInt8.ofNat (0xB0 + r.val), b] [0xC6, modRMByte 3 0 r.val, b]
  | moveWord (r : Fin 8) (low high : UInt8) :
      Synonyms [UInt8.ofNat (0xB8 + r.val), low, high] [0xC7, modRMByte 3 0 r.val, low, high]
  /-- Counting, pushing and popping a register by number. -/
  | increment (r : Fin 8) : Synonyms [UInt8.ofNat (0x40 + r.val)] [0xFF, modRMByte 3 0 r.val]
  | decrement (r : Fin 8) : Synonyms [UInt8.ofNat (0x48 + r.val)] [0xFF, modRMByte 3 1 r.val]
  | push (r : Fin 8) : Synonyms [UInt8.ofNat (0x50 + r.val)] [0xFF, modRMByte 3 6 r.val]
  | pop (r : Fin 8) : Synonyms [UInt8.ofNat (0x58 + r.val)] [0x8F, modRMByte 3 0 r.val]
  /-- Exchanges with `AX`. `AX` with itself is written `NOP` in the short form. -/
  | exchange (r : Fin 8) (hr : r.val ≠ 0) :
      Synonyms [UInt8.ofNat (0x90 + r.val)] [0x87, modRMByte 3 0 r.val]

-- ============================================================== text

/-- The text of an instruction does not show its opcode and its length. -/
theorem Instruction.render_congr {i j : Instruction} (hmnemonic : i.mnemonic = j.mnemonic)
    (hoperands : i.operands = j.operands) (hprefixes : i.prefixes = j.prefixes)
    (mode : ValueMode) : i.render mode = j.render mode := by
  have hoperand : ∀ operand, i.renderOperand mode operand = j.renderOperand mode operand := by
    intro operand
    cases operand with
    | memory m => simp only [renderOperand, sizeText, hmnemonic, hoperands]
    | register | immediate => rfl
  have hfollowing : ∀ (rest : List Operand) (before : Operand),
      i.renderFollowing mode before rest = j.renderFollowing mode before rest := by
    intro rest
    induction rest with
    | nil => intro before; rfl
    | cons operand rest ih =>
        intro before
        rw [renderFollowing, renderFollowing, hoperand, ih]
  have hlist : ∀ operands, i.renderOperands mode operands = j.renderOperands mode operands := by
    intro operands
    cases operands with
    | nil => rfl
    | cons operand rest => rw [renderOperands, renderOperands, hoperand, hfollowing]
  have hprefix : i.prefixText = j.prefixText := by
    unfold prefixText segment? isLocked isRep isRepne hasMemoryOperand
    rw [hprefixes, hoperands]
  rw [render, render, hprefix, hmnemonic, hoperands, hlist]

-- ========================================================= agreement

/-- The layouts mean one operation behind one run of prefixes. -/
structure Layout.Agree (l l' : Layout) : Prop where
  run : l.run = l'.run
  mnemonic : l.row.mnemonic = l'.row.mnemonic
  width : l.row.width = l'.row.width
  operands : l.row.operandsOf l.context l.field = l'.row.operandsOf l'.context l'.field

/-- The two encodings, with this run in front of them, are layouts that
agree. -/
def AgreeBehind (run short long : List UInt8) : Prop :=
  ∃ l l' : Layout, l.run = run ∧ l.opcode :: (l.head ++ l.field) = short
    ∧ l'.opcode :: (l'.head ++ l'.field) = long ∧ l.Agree l'

namespace Pattern

/-- Whether an operand that the opcode implies, or that has bytes of its
own, is what the other pattern makes of a ModRM byte in register form. -/
def standsFor (m : ModRM) : Pattern → Pattern → Bool
  | .fixed r, .rm8 => r == m.rmRegister .byte
  | .fixed r, .rm16 => r == m.rmRegister .word
  | .fixed r, .reg16 => r == m.regRegister .word
  | .none, .none => true
  | .imm8, .imm8 => true
  | .imm16, .imm16 => true
  | _, _ => false

/-- Such patterns give the same operand, from the same bytes. -/
theorem operandsOf_of_standsFor (ctx : OperandContext) {ctx' : OperandContext} {p p' : Pattern}
    (hform : ctx'.modRM.isMemory = false) (h : p.standsFor ctx'.modRM p' = true)
    (field : List UInt8) : p.operandsOf ctx field = p'.operandsOf ctx' field := by
  have hrm : ∀ size, ctx'.rmOperand size = .register (ctx'.modRM.rmRegister size) :=
    fun size => ctx'.rmOperand_of_register size hform
  unfold standsFor at h
  split at h
  case h_1 r =>
    rw [operandsOf, operandsOf, hrm, beq_iff_eq.mp h]
  case h_2 r =>
    rw [operandsOf, operandsOf, hrm, beq_iff_eq.mp h]
  case h_3 r =>
    rw [operandsOf, operandsOf, beq_iff_eq.mp h]
  case h_4 => rfl
  case h_5 => rfl
  case h_6 => rfl
  case h_7 => cases h

/-- They take equally many bytes, and neither refuses its ModRM byte. -/
theorem size_of_standsFor {m : ModRM} {p p' : Pattern} (h : p.standsFor m p' = true) :
    p.size = p'.size ∧ p.accepts ⟨0⟩ = true ∧ p'.accepts m = true := by
  unfold standsFor at h
  split at h
  case h_7 => cases h
  all_goals exact ⟨rfl, rfl, rfl⟩

end Pattern

namespace Row

/-- The patterns in the order in which two registers are listed. -/
def listed (row : Row) : Pattern × Pattern :=
  if row.reversesRegisters then (row.second, row.first) else (row.first, row.second)

/-- The row, which has no ModRM byte, is the other row with a ModRM byte in
register form. -/
@[mk_iff]
structure Shortens (row : Row) (m : ModRM) (row' : Row) : Prop where
  mnemonic : row.mnemonic = row'.mnemonic
  width : row.width = row'.width
  assigned : row.mnemonic ≠ .invalid
  first : row.first.standsFor m row'.listed.1 = true
  second : row.second.standsFor m row'.listed.2 = true

instance (row : Row) (m : ModRM) (row' : Row) : Decidable (Shortens row m row') :=
  decidable_of_iff' _ (shortens_iff row m row')

/-- Without a ModRM byte there are no two registers to exchange. -/
theorem reversesRegisters_of_plain {row : Row} (h : row.hasModRM = false) :
    row.reversesRegisters = false := by
  simp only [hasModRM, Bool.or_eq_false_iff] at h
  have hfirst : row.first ≠ .reg8 ∧ row.first ≠ .reg16 := by
    constructor
    · intro heq
      simp [heq, Pattern.usesModRM] at h
    · intro heq
      simp [heq, Pattern.usesModRM] at h
  simp [reversesRegisters, hfirst]

/-- The rows that list their registers the other way round. -/
theorem patterns_of_reversesRegisters {row : Row} (h : row.reversesRegisters = true) :
    (row.first = .reg8 ∧ row.second = .rm8) ∨ (row.first = .reg16 ∧ row.second = .rm16) := by
  simpa [reversesRegisters] using h

theorem fieldSize_listed (row : Row) : row.listed.1.size + row.listed.2.size = row.fieldSize := by
  unfold listed fieldSize
  split
  · exact Nat.add_comm _ _
  · rfl

theorem accepts_listed (row : Row) (m : ModRM) :
    (row.listed.1.accepts m && row.listed.2.accepts m) = row.accepts m := by
  unfold listed accepts
  split
  · exact Bool.and_comm _ _
  · rfl

/-- In register form the operands are those of the listed patterns: the
rows that list them the other way round take no bytes for them. -/
theorem operandsOf_listed {row : Row} {ctx : OperandContext} (hform : ctx.modRM.isMemory = false)
    (field : List UInt8) :
    row.operandsOf ctx field
      = row.listed.1.operandsOf ctx (field.take row.listed.1.size) ++
          row.listed.2.operandsOf ctx (field.drop row.listed.1.size) := by
  unfold operandsOf encodedOperands listed
  rw [hform, Bool.not_false, Bool.and_true]
  by_cases hreverses : row.reversesRegisters = true
  · rw [if_pos hreverses, if_pos hreverses]
    rcases patterns_of_reversesRegisters hreverses with ⟨heq, heq'⟩ | ⟨heq, heq'⟩
    · rw [heq, heq']
      rfl
    · rw [heq, heq']
      rfl
  · rw [if_neg hreverses, if_neg hreverses]

section Shortens

variable {row row' : Row} {m : ModRM}

/-- Both rows split their bytes at the same place. -/
theorem Shortens.sizes (h : Shortens row m row') :
    row.first.size = row'.listed.1.size ∧ row.fieldSize = row'.fieldSize := by
  have hfirst := (Pattern.size_of_standsFor h.first).1
  have hsecond := (Pattern.size_of_standsFor h.second).1
  rw [← row'.fieldSize_listed, fieldSize, hfirst, hsecond]
  exact ⟨rfl, rfl⟩

theorem Shortens.accepts (h : Shortens row m row') :
    row.accepts ⟨0⟩ = true ∧ row'.accepts m = true := by
  obtain ⟨-, hplain, haccepts⟩ := Pattern.size_of_standsFor h.first
  obtain ⟨-, hplain', haccepts'⟩ := Pattern.size_of_standsFor h.second
  rw [← row'.accepts_listed, Row.accepts, hplain, hplain', haccepts, haccepts']
  exact ⟨rfl, rfl⟩

/-- Both rows have the same operands. -/
theorem Shortens.operandsOf_eq {ctx ctx' : OperandContext} (h : Shortens row ctx'.modRM row')
    (hplain : row.hasModRM = false) (hform : ctx'.modRM.isMemory = false) (field : List UInt8) :
    row.operandsOf ctx field = row'.operandsOf ctx' field := by
  have hfirst := Pattern.operandsOf_of_standsFor ctx hform h.first
  have hsecond := Pattern.operandsOf_of_standsFor ctx hform h.second
  rw [operandsOf_listed hform, ← h.sizes.1, ← hfirst, ← hsecond, operandsOf,
    reversesRegisters_of_plain hplain]
  rfl

end Shortens

end Row

-- ==================================================== register forms

/-- An opcode without a ModRM byte, and with a field of this size, for what
another opcode does with this ModRM byte, which is in register form. -/
@[mk_iff]
structure Abbreviates (op op' : UInt8) (m : ModRM) (size : Nat) : Prop where
  opcode_ne_prefix : Prefix.isByte op = false
  other_ne_prefix : Prefix.isByte op' = false
  plain : (Row.ofOpcode op).hasModRM = false
  hasModRM : (Row.ofOpcode op').hasModRM = true
  register : m.isMemory = false
  shortens : (Row.ofOpcode op).Shortens m (Row.entry op' m.reg)
  fieldSize : (Row.ofOpcode op).fieldSize = size

instance (op op' : UInt8) (m : ModRM) (size : Nat) : Decidable (Abbreviates op op' m size) :=
  decidable_of_iff' _ (abbreviates_iff op op' m size)

/-- A register has no displacement. -/
theorem ModRM.displacementSize_of_register {m : ModRM} (h : m.isMemory = false) :
    m.displacementSize = 0 := by
  have hmod : m.mod = 3 := by simpa [isMemory] using h
  simp [displacementSize, displacementWidth, hmod]

section Behind

variable {run : List UInt8} (hrun : ∀ b ∈ run, Prefix.isByte b = true)

include hrun in
/-- The short encoding is the long one without the ModRM byte. -/
theorem Abbreviates.agreeBehind {op op' : UInt8} {m : ModRM} {size : Nat}
    (h : Abbreviates op op' m size) {field : List UInt8} (hfield : field.length = size) :
    AgreeBehind run (op :: field) (op' :: m.byte :: field) := by
  have hsize : field.length = (Row.ofOpcode op).fieldSize := hfield.trans h.fieldSize.symm
  let l : Layout := .plain ⟨run, op, hrun, h.opcode_ne_prefix⟩ h.plain field h.shortens.assigned
    h.shortens.accepts.1 hsize
  let l' : Layout := .withModRM ⟨run, op', hrun, h.other_ne_prefix⟩ h.hasModRM m []
    (ModRM.displacementSize_of_register h.register).symm field
    (fun hrow' => h.shortens.assigned (h.shortens.mnemonic.trans hrow')) h.shortens.accepts.2
    (hsize.trans h.shortens.sizes.2)
  have hrow : l.row = Row.ofOpcode op := Heading.row_plain _ h.plain
  refine ⟨l, l', rfl, rfl, rfl, rfl, ?_, ?_, ?_⟩
  · rw [hrow]
    exact h.shortens.mnemonic
  · rw [hrow]
    exact h.shortens.width
  · rw [hrow]
    exact h.shortens.operandsOf_eq h.plain h.register field

-- ================================================== direct addresses

/-- A move between the accumulator and an address behind the opcode, and
the row of the move with a ModRM byte. -/
inductive DirectRows : Row → Row → Prop where
  | loadByte : DirectRows (.binary .MOV .byte (.fixed .AL) .offset8)
      (.binary .MOV .byte .reg8 .rm8)
  | loadWord : DirectRows (.binary .MOV .word (.fixed .AX) .offset16)
      (.binary .MOV .word .reg16 .rm16)
  | storeByte : DirectRows (.binary .MOV .byte .offset8 (.fixed .AL))
      (.binary .MOV .byte .rm8 .reg8)
  | storeWord : DirectRows (.binary .MOV .word .offset16 (.fixed .AX))
      (.binary .MOV .word .rm16 .reg16)

/-- The displacement of a direct address is the word behind the ModRM byte. -/
theorem ModRM.displacementOf_direct (low high : UInt8) :
    displacementOf ⟨0x06⟩ [low, high] = .word (littleEndian low high).toInt16 := by
  have hwidth : (ModRM.mk 0x06).displacementWidth = .word := by decide
  rw [displacementOf, hwidth]
  rfl

/-- The ModRM byte 06 asks for a direct address. -/
theorem OperandContext.rmOperand_of_direct {ctx : OperandContext} {address : UInt16}
    (hmodRM : ctx.modRM = ⟨0x06⟩) (hdisplacement : ctx.displacement = .word address.toInt16)
    (size : Width) : ctx.rmOperand size = ctx.directOperand size address := by
  have hmode : (ModRM.mk 0x06).mode? = some .direct := by decide
  unfold rmOperand memory? ModRM.memory?
  rw [hmodRM, hmode, hdisplacement]
  rfl

/-- The word is the address in both rows, and the other operand is register
number zero. -/
theorem DirectRows.operandsOf_eq {row row' : Row} (h : DirectRows row row')
    {ctx ctx' : OperandContext} {low high : UInt8} (hplain : ctx.modRM = ⟨0⟩)
    (hmodRM : ctx'.modRM = ⟨0x06⟩)
    (hdisplacement : ctx'.displacement = .word (littleEndian low high).toInt16)
    (hoverride : ctx'.override = ctx.override) :
    row.operandsOf ctx [low, high] = row'.operandsOf ctx' [] := by
  have hform : ctx.modRM.isMemory = true := by
    rw [hplain]
    decide
  have hform' : ctx'.modRM.isMemory = true := by
    rw [hmodRM]
    decide
  have hreg : ctx'.modRM.regRegister .byte = .AL ∧ ctx'.modRM.regRegister .word = .AX := by
    rw [hmodRM]
    decide
  have hrm : ∀ size, ctx'.rmOperand size = ctx.directOperand size (littleEndian low high) := by
    intro size
    rw [OperandContext.rmOperand_of_direct hmodRM hdisplacement, OperandContext.directOperand,
      hoverride]
    rfl
  rw [Row.operandsOf_of_memory hform, Row.operandsOf_of_memory hform', Row.encodedOperands,
    Row.encodedOperands]
  cases h with
  | loadByte | loadWord | storeByte | storeWord =>
      simp only [Row.binary, Pattern.operandsOf, hrm, hreg]
      rfl

include hrun in
/-- The short encoding is the long one without the ModRM byte 06. -/
theorem DirectRows.agreeBehind {row row' : Row} (h : DirectRows row row') {op op' : UInt8}
    (hop : Prefix.isByte op = false) (hop' : Prefix.isByte op' = false)
    (hrow : Row.ofOpcode op = row) (hrow' : Row.ofOpcode op' = row') (low high : UInt8) :
    AgreeBehind run [op, low, high] [op', 0x06, low, high] := by
  have hplain : row.hasModRM = false ∧ row.mnemonic ≠ .invalid ∧ row.accepts ⟨0⟩ = true
      ∧ row.fieldSize = 2 := by
    cases h <;> decide
  have hmodRM : row'.hasModRM = true ∧ row'.mnemonic ≠ .invalid ∧ row'.accepts ⟨0x06⟩ = true
      ∧ row'.fieldSize = 0 ∧ row'.group = none := by
    cases h <;> decide
  have hmeaning : row.mnemonic = row'.mnemonic ∧ row.width = row'.width := by
    cases h <;> decide
  obtain ⟨hplain, hassigned, haccepted, hsize⟩ := hplain
  obtain ⟨hmodRM, hassigned', haccepted', hsize', hgroup⟩ := hmodRM
  have hentry : Row.entry op' (ModRM.mk 0x06).reg = row' := by
    unfold Row.entry
    rw [hrow', hgroup]
  rw [← hentry] at hassigned' haccepted' hsize'
  subst hrow hrow'
  let l : Layout := .plain ⟨run, op, hrun, hop⟩ hplain [low, high] hassigned haccepted hsize.symm
  let l' : Layout := .withModRM ⟨run, op', hrun, hop'⟩ hmodRM ⟨0x06⟩ [low, high] rfl [] hassigned'
    haccepted' hsize'.symm
  have hl : l.row = Row.ofOpcode op := Heading.row_plain _ hplain
  have hl' : l'.row = Row.ofOpcode op' := hentry
  refine ⟨l, l', rfl, rfl, rfl, rfl, ?_, ?_, ?_⟩
  · rw [hl, hl']
    exact hmeaning.1
  · rw [hl, hl']
    exact hmeaning.2
  · rw [hl, hl']
    have hcontext : l'.context = _ :=
      Heading.context_withModRM ⟨run, op', hrun, hop'⟩ hmodRM ⟨0x06⟩ [low, high] rfl
    rw [hcontext]
    exact h.operandsOf_eq rfl rfl (ModRM.displacementOf_direct low high) rfl

-- ============================================================ groups

/-- The rows have one operation and width, an r/m operand, and a constant
that they encode as `q` and as `q'`. -/
@[mk_iff]
structure ConstantRows (q q' : Pattern) (row row' : Row) : Prop where
  assigned : row.mnemonic ≠ .invalid
  first : row.first = .rm8 ∨ row.first = .rm16
  second : row.second = q
  other : row' = { row with second := q' }

instance (q q' : Pattern) (row row' : Row) : Decidable (ConstantRows q q' row row') :=
  decidable_of_iff' _ (constantRows_iff q q' row row')

namespace ConstantRows

variable {q q' : Pattern} {row row' : Row}

theorem symm (h : ConstantRows q q' row row') : ConstantRows q' q row' row := by
  obtain ⟨hassigned, hfirst, rfl, rfl⟩ := h
  exact ⟨hassigned, hfirst, rfl, rfl⟩

/-- The constant is all that they differ in. -/
theorem meaning_eq (h : ConstantRows q q' row row') :
    row.mnemonic = row'.mnemonic ∧ row.width = row'.width := by
  rw [h.other]
  exact ⟨rfl, rfl⟩

/-- An r/m operand can be anything, so the constant decides what is
accepted. -/
theorem accepts_eq (h : ConstantRows q q' row row') (m : ModRM) : row.accepts m = q.accepts m := by
  rw [Row.accepts, h.second]
  rcases h.first with hfirst | hfirst
  · rw [hfirst]
    rfl
  · rw [hfirst]
    rfl

/-- An r/m operand has no bytes in the field, so the constant has them all. -/
theorem fieldSize_eq (h : ConstantRows q q' row row') : row.fieldSize = q.size := by
  rw [Row.fieldSize, h.second]
  rcases h.first with hfirst | hfirst
  · rw [hfirst]
    exact Nat.zero_add _
  · rw [hfirst]
    exact Nat.zero_add _

/-- The r/m operand comes first, and does not depend on the opcode. -/
theorem exists_operandsOf (h : ConstantRows q q' row row') : ∃ size : Width,
    (∀ ctx field, row.operandsOf ctx field = ctx.rmOperand size :: q.operandsOf ctx field)
      ∧ ∀ ctx field, row'.operandsOf ctx field = ctx.rmOperand size :: q'.operandsOf ctx field := by
  obtain ⟨-, hfirst, rfl, rfl⟩ := h
  unfold Row.operandsOf Row.encodedOperands
  rcases hfirst with hfirst | hfirst
  · refine ⟨.byte, fun ctx field => ?_, fun ctx field => ?_⟩
    · simp [Row.reversesRegisters, hfirst, Pattern.operandsOf, Pattern.size]
    · simp [Row.reversesRegisters, hfirst, Pattern.operandsOf, Pattern.size]
  · refine ⟨.word, fun ctx field => ?_, fun ctx field => ?_⟩
    · simp [Row.reversesRegisters, hfirst, Pattern.operandsOf, Pattern.size]
    · simp [Row.reversesRegisters, hfirst, Pattern.operandsOf, Pattern.size]

end ConstantRows

/-- What a constant is encoded with, and what it then is. -/
structure SameConstant (q q' : Pattern) (field field' : List UInt8) : Prop where
  accepts : ∀ m, q.accepts m = true ∧ q'.accepts m = true
  size : field.length = q.size ∧ field'.length = q'.size
  operands : ∀ ctx ctx', q.operandsOf ctx field = q'.operandsOf ctx' field'

include hrun in
/-- Opcodes whose rows differ in the encoding of a constant alone, behind
one ModRM byte and with fields that hold the same constant. -/
theorem ConstantRows.agreeBehind {op op' : UInt8} {m : ModRM} {q q' : Pattern}
    (h : ConstantRows q q' (Row.entry op m.reg) (Row.entry op' m.reg))
    (hop : Prefix.isByte op = false) (hop' : Prefix.isByte op' = false)
    (hmodRM : (Row.ofOpcode op).hasModRM = true) (hmodRM' : (Row.ofOpcode op').hasModRM = true)
    {displacement field field' : List UInt8} (hsize : displacement.length = m.displacementSize)
    (hconstant : SameConstant q q' field field') :
    AgreeBehind run (op :: m.byte :: displacement ++ field)
      (op' :: m.byte :: displacement ++ field') := by
  let l : Layout := .withModRM ⟨run, op, hrun, hop⟩ hmodRM m displacement hsize field h.assigned
    ((h.accepts_eq m).trans (hconstant.accepts m).1)
    (hconstant.size.1.trans h.fieldSize_eq.symm)
  let l' : Layout := .withModRM ⟨run, op', hrun, hop'⟩ hmodRM' m displacement hsize field'
    h.symm.assigned ((h.symm.accepts_eq m).trans (hconstant.accepts m).2)
    (hconstant.size.2.trans h.symm.fieldSize_eq.symm)
  obtain ⟨size, hoperands, hoperands'⟩ := h.exists_operandsOf
  refine ⟨l, l', rfl, rfl, rfl, rfl, ?_, ?_, ?_⟩
  · exact h.meaning_eq.1
  · exact h.meaning_eq.2
  · refine (hoperands l.context field).trans (Eq.trans ?_ (hoperands' l'.context field').symm)
    rw [hconstant.operands l.context l'.context]
    rfl

end Behind

-- =============================================================== map

/-- A byte and its sign fill are the word that it extends to. -/
theorem signExtended_eq_word (b : UInt8) :
    Immediate.signExtended b.toInt8 = Immediate.word (littleEndian b (signFill b)) := by
  have hb := b.toNat_lt
  have hword : (littleEndian b (signFill b)).toNat = b.toNat + 256 * (signFill b).toNat := by
    have hfill := (signFill b).toNat_lt
    rw [littleEndian, UInt16.toNat_ofNat']
    omega
  have hbyte : b.toInt8.toInt16.toInt = b.toBitVec.toInt := Int8.toInt_toInt16 _
  have hvalue : b.toInt8.toInt16 = (littleEndian b (signFill b)).toInt16 := by
    apply Int16.toInt_inj.mp
    show _ = (littleEndian b (signFill b)).toBitVec.toInt
    rw [hbyte, BitVec.toInt_eq_toNat_cond, BitVec.toInt_eq_toNat_cond, UInt8.toNat_toBitVec,
      UInt16.toNat_toBitVec, hword]
    by_cases hlow : b.toNat < 128
    · have hfill : signFill b = 0x00 := if_pos (UInt8.lt_iff_toNat_lt.mpr hlow)
      rw [hfill, if_pos (by omega), if_pos (by simp; omega)]
      simp
    · have hfill : signFill b = 0xFF := if_neg fun h => hlow (UInt8.lt_iff_toNat_lt.mp h)
      rw [hfill, if_neg (by omega), if_neg (by simp; omega)]
      simp
      omega
  rw [Immediate.signExtended, Immediate.word, hvalue]

/-- Registers by number, and the accumulator as register number zero. -/
theorem abbreviates_arithmetic (n : Fin 8) :
    Abbreviates (UInt8.ofNat (8 * n.val + 4)) 0x80 ⟨modRMByte 3 n.val 0⟩ 1
      ∧ Abbreviates (UInt8.ofNat (8 * n.val + 5)) 0x81 ⟨modRMByte 3 n.val 0⟩ 2 := by
  revert n
  decide +kernel

/-- `TEST` of the accumulator with a constant. -/
theorem abbreviates_test :
    Abbreviates 0xA8 0xF6 ⟨modRMByte 3 0 0⟩ 1 ∧ Abbreviates 0xA9 0xF7 ⟨modRMByte 3 0 0⟩ 2 := by
  decide +kernel

/-- `MOV` of a constant to a register. -/
theorem abbreviates_move (r : Fin 8) :
    Abbreviates (UInt8.ofNat (0xB0 + r.val)) 0xC6 ⟨modRMByte 3 0 r.val⟩ 1
      ∧ Abbreviates (UInt8.ofNat (0xB8 + r.val)) 0xC7 ⟨modRMByte 3 0 r.val⟩ 2 := by
  revert r
  decide +kernel

/-- `INC` and `DEC` of a word register. -/
theorem abbreviates_count (r : Fin 8) :
    Abbreviates (UInt8.ofNat (0x40 + r.val)) 0xFF ⟨modRMByte 3 0 r.val⟩ 0
      ∧ Abbreviates (UInt8.ofNat (0x48 + r.val)) 0xFF ⟨modRMByte 3 1 r.val⟩ 0 := by
  revert r
  decide +kernel

/-- `PUSH` and `POP` of a word register. -/
theorem abbreviates_stack (r : Fin 8) :
    Abbreviates (UInt8.ofNat (0x50 + r.val)) 0xFF ⟨modRMByte 3 6 r.val⟩ 0
      ∧ Abbreviates (UInt8.ofNat (0x58 + r.val)) 0x8F ⟨modRMByte 3 0 r.val⟩ 0 := by
  revert r
  decide +kernel

/-- `XCHG` with the accumulator. The accumulator with itself is `NOP`. -/
theorem abbreviates_exchange (r : Fin 8) (hr : r.val ≠ 0) :
    Abbreviates (UInt8.ofNat (0x90 + r.val)) 0x87 ⟨modRMByte 3 0 r.val⟩ 0 := by
  revert r
  decide +kernel

/-- Groups 82 and 80 differ in nothing, 83 and 81 in the size of the
constant. -/
theorem constantRows_arithmetic (reg : Fin 8) :
    ConstantRows .imm8 .imm8 (Row.entry 0x82 reg) (Row.entry 0x80 reg)
      ∧ ConstantRows .imm8Extended .imm16 (Row.entry 0x83 reg) (Row.entry 0x81 reg) := by
  revert reg
  decide +kernel

theorem sameConstant_byte (b : UInt8) : SameConstant .imm8 .imm8 [b] [b] where
  accepts _ := ⟨rfl, rfl⟩
  size := ⟨rfl, rfl⟩
  operands _ _ := rfl

/-- A byte with its sign fill is the word that the byte extends to. -/
theorem sameConstant_extended (b : UInt8) :
    SameConstant .imm8Extended .imm16 [b] [b, signFill b] where
  accepts _ := ⟨rfl, rfl⟩
  size := ⟨rfl, rfl⟩
  operands _ _ := congrArg (fun c => [Operand.immediate c]) (signExtended_eq_word b)

-- ========================================================= statement

/-- Each pair of the table agrees, behind any run of prefixes. -/
theorem agreeBehind_of_synonyms {run short long : List UInt8}
    (hrun : ∀ b ∈ run, Prefix.isByte b = true) (h : Synonyms short long) :
    AgreeBehind run short long := by
  cases h with
  | arithmeticByte n b => exact (abbreviates_arithmetic n).1.agreeBehind hrun rfl
  | arithmeticWord n low high => exact (abbreviates_arithmetic n).2.agreeBehind hrun rfl
  | twin m displacement hsize b =>
      exact (constantRows_arithmetic m.reg).1.agreeBehind hrun rfl rfl (by decide +kernel)
        (by decide +kernel) hsize (sameConstant_byte b)
  | extended m displacement hsize b =>
      exact (constantRows_arithmetic m.reg).2.agreeBehind hrun rfl rfl (by decide +kernel)
        (by decide +kernel) hsize (sameConstant_extended b)
  | testByte b => exact abbreviates_test.1.agreeBehind hrun rfl
  | testWord low high => exact abbreviates_test.2.agreeBehind hrun rfl
  | loadByte low high =>
      exact DirectRows.loadByte.agreeBehind hrun rfl rfl (by decide +kernel)
        (by decide +kernel) low high
  | loadWord low high =>
      exact DirectRows.loadWord.agreeBehind hrun rfl rfl (by decide +kernel)
        (by decide +kernel) low high
  | storeByte low high =>
      exact DirectRows.storeByte.agreeBehind hrun rfl rfl (by decide +kernel)
        (by decide +kernel) low high
  | storeWord low high =>
      exact DirectRows.storeWord.agreeBehind hrun rfl rfl (by decide +kernel)
        (by decide +kernel) low high
  | moveByte r b => exact (abbreviates_move r).1.agreeBehind hrun rfl
  | moveWord r low high => exact (abbreviates_move r).2.agreeBehind hrun rfl
  | increment r => exact (abbreviates_count r).1.agreeBehind hrun rfl
  | decrement r => exact (abbreviates_count r).2.agreeBehind hrun rfl
  | push r => exact (abbreviates_stack r).1.agreeBehind hrun rfl
  | pop r => exact (abbreviates_stack r).2.agreeBehind hrun rfl
  | exchange r hr => exact (abbreviates_exchange r hr).agreeBehind hrun rfl

/-- Synonyms decode alike, behind every run of prefixes and whatever
follows: to instructions with the opcodes and lengths of their own
encodings and with all else in common, and so with one text. -/
theorem decodeNext_of_synonyms {run short long : List UInt8}
    (hrun : ∀ b ∈ run, Prefix.isByte b = true) (h : Synonyms short long) (rest : List UInt8) :
    ∃ i j : Instruction, decodeNext (run ++ short ++ rest) = .ok i
      ∧ decodeNext (run ++ long ++ rest) = .ok j
      ∧ i.mnemonic = j.mnemonic ∧ i.width = j.width ∧ i.operands = j.operands
      ∧ i.prefixes = j.prefixes
      ∧ short.head? = some i.opcode ∧ long.head? = some j.opcode
      ∧ i.length = run.length + short.length ∧ j.length = run.length + long.length
      ∧ ∀ mode, i.render mode = j.render mode := by
  obtain ⟨l, l', rfl, rfl, rfl, hagree⟩ := agreeBehind_of_synonyms hrun h
  have hbytes := l.bytes_eq
  have hbytes' := l'.bytes_eq
  rw [← hagree.run] at hbytes'
  have hprefixes : l.instruction.prefixes = l'.instruction.prefixes :=
    congrArg Prefixes.ofRun hagree.run
  refine ⟨l.instruction, l'.instruction, ?_, ?_, hagree.mnemonic, hagree.width, hagree.operands,
    hprefixes, rfl, rfl, ?_, ?_,
    Instruction.render_congr hagree.mnemonic hagree.operands hprefixes⟩
  · rw [← hbytes]
    exact decodeNext_of_read_ok (l.read_append rest)
  · rw [← hbytes']
    exact decodeNext_of_read_ok (l'.read_append rest)
  · rw [← List.length_append, ← hbytes]
    rfl
  · rw [← List.length_append, ← hbytes']
    rfl

/-- A small constant taken from a word in memory, behind a lock and an
override, with the constant in a byte and in a word. -/
theorem decodeNext_of_synonyms_of_subtraction : ∃ i j : Instruction,
    decodeNext [0xF0, 0x26, 0x83, 0x68, 0x04, 0x80] = .ok i
      ∧ decodeNext [0xF0, 0x26, 0x81, 0x68, 0x04, 0x80, 0xFF] = .ok j
      ∧ i.operands = j.operands ∧ i.length = 6 ∧ j.length = 7
      ∧ i.render .hex = j.render .hex := by
  have hrun : ∀ b ∈ [0xF0, 0x26], Prefix.isByte b = true := List.all_eq_true.mp (by decide)
  obtain ⟨i, j, hi, hj, -, -, hoperands, -, -, -, hlength, hlength', hrender⟩ :=
    decodeNext_of_synonyms hrun (.extended ⟨0x68⟩ [0x04] rfl 0x80) []
  exact ⟨i, j, hi, hj, hoperands, hlength, hlength', hrender .hex⟩

end Disasm8086
