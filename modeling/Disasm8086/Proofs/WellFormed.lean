/-
What holds of every decoded instruction, whatever the bytes. Those who
write an instruction down or carry it out rely on it: there is an
operation, there are two operands at most and one of them at most is in
memory, a memory operand is as wide as the operation and has the
override that the prefixes ask for, registers are as wide as the
operation but for the port in `DX` and the count in `CL`, far pointers
are whole, and of the two repeat prefixes one at most is in force.

# The argument

Every operand stands for a pattern of the row that the opcode and the
ModRM byte settle on (`Layout.exists_pattern`). What is said about
single operands is therefore said about patterns first: which registers
a pattern can name (`Pattern.register_of_mem`), which memory operands
(`Pattern.displaced_of_mem`). The rest are laws of the opcode map, each
decided by one traversal, and for the repeat prefixes a fact about runs.
-/
import Disasm8086.Proofs.Encoding
import Disasm8086.Proofs.OperandKind
import Disasm8086.Proofs.PrefixRun

namespace Disasm8086

-- =========================================================== statement

/-- An instruction as decoding leaves it, behind `run` prefix bytes. -/
structure Instruction.WellFormed (i : Instruction) (run : Nat) : Prop where
  assigned : i.mnemonic ≠ .invalid
  length_operands : i.operands.length ≤ 2
  one_memory : i.operands.countP Operand.isMemory ≤ 1
  -- opcode, ModRM byte, displacement and immediate bytes
  length : run + 1 ≤ i.length ∧ i.length ≤ run + 6
  override : ∀ m, .memory m ∈ i.operands → m.override = i.segment?
  direct : ∀ m, .memory m ∈ i.operands → m.mode = .direct → ∃ d, m.displacement = .word d
  -- `BP` alone cannot be addressed without a displacement
  based : ∀ m, .memory m ∈ i.operands → m.mode = .bp → m.displacement ≠ .none
  size : ∀ m, .memory m ∈ i.operands →
    (i.mnemonic = .ESC ∧ i.width = .none ∧ m.size = .word)
      ∨ (i.mnemonic ≠ .ESC ∧ m.size = i.width)
  byte_registers : i.width = .byte → ∀ r, .register r ∈ i.operands →
    r.width = .byte ∨ (r = .DX ∧ (i.mnemonic = .IN ∨ i.mnemonic = .OUT))
  word_registers : i.width = .word → ∀ r, .register r ∈ i.operands →
    r.width = .word ∨ (r = .CL ∧ i.mnemonic.isShiftRotate = true)
  far_pointer : ∀ c, .immediate c ∈ i.operands →
    (c.role = .farSegment ∨ c.role = .farOffset) →
      (i.opcode = 0x9A ∨ i.opcode = 0xEA) ∧ ∃ segment offset : Immediate,
        i.operands = [.immediate segment, .immediate offset]
          ∧ segment.role = .farSegment ∧ offset.role = .farOffset
  one_repeat : ¬ (i.isRep = true ∧ i.isRepne = true)
  -- a move to a segment register, `CS` excepted
  segment_load : i.opcode = 0x8E → ∃ s : Segment, s ≠ .CS
    ∧ i.operands.head? = some (.register s.register)

-- =========================================================== registers

/-- Whether a register may stand beside an operation of this width. -/
def Register.fits (m : Mnemonic) (width : Width) (r : Register) : Bool :=
  match width with
  | .none => true
  | .byte => decide (r.width = .byte) || (decide (r = .DX) && decide (m = .IN ∨ m = .OUT))
  | .word => decide (r.width = .word) || (decide (r = .CL) && m.isShiftRotate)

/-- Whether all registers that a pattern can name may. -/
def Pattern.registersFit (m : Mnemonic) (width : Width) : Pattern → Bool
  | .rm8 | .reg8 => decide (width ≠ .word)
  | .rm16 | .mem | .reg16 | .segment | .segmentTarget => decide (width ≠ .byte)
  | .fixed r => r.fits m width
  | _ => true

/-- A register fits an operation of its own width. -/
theorem Register.fits_of_width {m : Mnemonic} {width own : Width} {r : Register}
    (hwidth : r.width = own) (h : width = .none ∨ width = own) : r.fits m width = true := by
  rcases h with rfl | rfl
  · rfl
  · cases width with
    | none => rfl
    | byte | word => simp [fits, hwidth]

theorem OperandContext.width_of_rmOperand {ctx : OperandContext} {size : Width}
    (hsize : size ≠ .none) {r : Register} (h : .register r = ctx.rmOperand size) :
    r.width = size := by
  rcases ctx.rmOperand_cases size with ⟨-, m, hm, -⟩ | ⟨-, hr⟩
  · rw [hm] at h
    cases h
  · rw [hr] at h
    cases h
    exact ctx.modRM.width_rmRegister hsize

/-- Where a pattern's registers may stand, every register that it gives
may. -/
theorem Pattern.register_of_mem {ctx : OperandContext} {field : List UInt8} {p : Pattern}
    {m : Mnemonic} {width : Width} (hfit : p.registersFit m width = true) {r : Register}
    (h : .register r ∈ p.operandsOf ctx field) : r.fits m width = true := by
  have hbyte : width ≠ .word → width = .none ∨ width = .byte := by
    cases width <;> simp
  have hword : width ≠ .byte → width = .none ∨ width = .word := by
    cases width <;> simp
  cases p with
  | rm8 =>
      have hwidth := ctx.width_of_rmOperand (by decide) (List.mem_singleton.mp h)
      exact Register.fits_of_width hwidth (hbyte (of_decide_eq_true hfit))
  | rm16 | mem =>
      have hwidth := ctx.width_of_rmOperand (by decide) (List.mem_singleton.mp h)
      exact Register.fits_of_width hwidth (hword (of_decide_eq_true hfit))
  | reg8 =>
      cases List.mem_singleton.mp h
      exact Register.fits_of_width (ctx.modRM.width_regRegister (by decide))
        (hbyte (of_decide_eq_true hfit))
  | reg16 =>
      cases List.mem_singleton.mp h
      exact Register.fits_of_width (ctx.modRM.width_regRegister (by decide))
        (hword (of_decide_eq_true hfit))
  | segment | segmentTarget =>
      obtain ⟨s, -, hs⟩ := List.mem_map.mp h
      cases hs
      exact Register.fits_of_width s.width_register (hword (of_decide_eq_true hfit))
  | fixed r' =>
      cases List.mem_singleton.mp h
      exact hfit
  | farPointer => simp [operandsOf] at h
  | none | imm8 | imm16 | imm8Extended | imm8Unsigned | imm16Unsigned | rel8 | rel16 | offset8
  | offset16 | implied | external => simp [operandsOf, OperandContext.directOperand] at h

-- ====================================================== memory operands

/-- A direct address is a word, and `BP` alone has a displacement. -/
def MemoryReference.Displaced (m : MemoryReference) : Prop :=
  (m.mode = .direct → ∃ d, m.displacement = .word d) ∧ (m.mode = .bp → m.displacement ≠ .none)

namespace ModRM

variable {m : ModRM}

/-- A direct address has a word. -/
theorem displacementWidth_of_direct (h : m.mode? = some .direct) :
    m.displacementWidth = .word := by
  revert h
  unfold mode? displacementWidth
  generalize m.mod = mod
  generalize m.rm = rm
  revert mod rm
  decide

/-- The encoding of `BP` without a displacement is that of a direct
address. -/
theorem displacementWidth_of_bp (h : m.mode? = some .bp) : m.displacementWidth ≠ .none := by
  revert h
  unfold mode? displacementWidth
  generalize m.mod = mod
  generalize m.rm = rm
  revert mod rm
  decide

end ModRM

/-- A memory operand in the r/m field is addressed as the ModRM byte says. -/
theorem OperandContext.mode_of_rmOperand {ctx : OperandContext} {size : Width}
    {m : MemoryReference} (h : .memory m = ctx.rmOperand size) :
    ctx.modRM.mode? = some m.mode ∧ m.displacement = ctx.displacement := by
  unfold rmOperand memory? ModRM.memory? at h
  cases hmode : ctx.modRM.mode? with
  | none =>
      rw [hmode] at h
      cases h
  | some mode =>
      rw [hmode] at h
      cases h
      exact ⟨rfl, rfl⟩

/-- So its displacement is one that its mode can have. -/
theorem OperandContext.displaced_of_rmOperand {ctx : OperandContext} {size : Width}
    {own : List UInt8} (hctx : ctx.displacement = ctx.modRM.displacementOf own)
    {m : MemoryReference} (h : .memory m = ctx.rmOperand size) : m.Displaced := by
  obtain ⟨hmode, hdisplacement⟩ := mode_of_rmOperand h
  rw [MemoryReference.Displaced, hdisplacement, hctx, ModRM.displacementOf]
  constructor
  · intro hdirect
    rw [hdirect] at hmode
    rw [ModRM.displacementWidth_of_direct hmode]
    exact ⟨_, rfl⟩
  · intro hbp
    rw [hbp] at hmode
    have hwidth := ModRM.displacementWidth_of_bp hmode
    cases hdisp : ctx.modRM.displacementWidth with
    | none => exact absurd hdisp hwidth
    | byte | word => nofun

/-- And so is that of every memory operand. -/
theorem Pattern.displaced_of_mem {ctx : OperandContext} {field own : List UInt8} {p : Pattern}
    (hctx : ctx.displacement = ctx.modRM.displacementOf own) {m : MemoryReference}
    (h : .memory m ∈ p.operandsOf ctx field) : m.Displaced := by
  cases p with
  | rm8 | rm16 | mem => exact OperandContext.displaced_of_rmOperand hctx (List.mem_singleton.mp h)
  | offset8 | offset16 =>
      cases List.mem_singleton.mp h
      exact ⟨fun _ => ⟨_, rfl⟩, nofun⟩
  | segment | segmentTarget =>
      obtain ⟨s, -, hs⟩ := List.mem_map.mp h
      cases hs
  | none | reg8 | reg16 | imm8 | imm16 | imm8Extended | imm8Unsigned | imm16Unsigned | rel8 | rel16
  | fixed | implied | farPointer | external => simp [operandsOf] at h

-- ======================================================== far pointers

/-- Whether it is a part of a far pointer. -/
def Operand.Kind.isFar : Kind → Bool
  | .immediate role _ => decide (role = .farSegment ∨ role = .farOffset)
  | _ => false

/-- Whether it is in memory. -/
def Operand.Kind.isMemory : Kind → Bool
  | .memory _ => true
  | _ => false

/-- The kind of an immediate tells its role. -/
theorem Operand.exists_of_kind {operand : Operand} {role : Immediate.Role} {width : Width}
    (h : operand.kind = .immediate role width) : ∃ c, operand = .immediate c ∧ c.role = role := by
  cases operand with
  | register | memory => cases h
  | immediate c =>
      injection h with hrole
      exact ⟨c, rfl, hrole⟩

namespace Layout

variable (l : Layout)

/-- A part of a far pointer never stands alone. -/
theorem kinds_of_isFar {operand : Operand} (h : operand ∈ l.instruction.operands)
    (hfar : operand.kind.isFar = true) : (l.opcode = 0x9A ∨ l.opcode = 0xEA)
      ∧ l.instruction.operands.map Operand.kind = Operand.Kind.farPointer := by
  have hkinds := l.kinds_law (fun op _ kinds => !kinds.any Operand.Kind.isFar ||
    decide ((op = 0x9A ∨ op = 0xEA) ∧ kinds = Operand.Kind.farPointer)) (by decide +kernel)
  have hany : (l.instruction.operands.map Operand.kind).any Operand.Kind.isFar = true :=
    List.any_eq_true.mpr ⟨_, List.mem_map_of_mem h, hfar⟩
  rw [hany] at hkinds
  exact of_decide_eq_true hkinds

/-- A part of a far pointer comes with the other part, segment first. -/
theorem exists_farPointer {c : Immediate} (h : .immediate c ∈ l.instruction.operands)
    (hrole : c.role = .farSegment ∨ c.role = .farOffset) :
    (l.opcode = 0x9A ∨ l.opcode = 0xEA) ∧ ∃ segment offset : Immediate,
      l.instruction.operands = [.immediate segment, .immediate offset]
        ∧ segment.role = .farSegment ∧ offset.role = .farOffset := by
  obtain ⟨hopcode, hkinds⟩ := l.kinds_of_isFar h (decide_eq_true hrole)
  refine ⟨hopcode, ?_⟩
  obtain ⟨first, _, hoperands, hfirst, hrest⟩ := List.map_eq_cons_iff.mp hkinds
  obtain ⟨second, _, rfl, hsecond, hnil⟩ := List.map_eq_cons_iff.mp hrest
  obtain ⟨segment, rfl, hsegment⟩ := Operand.exists_of_kind hfirst
  obtain ⟨offset, rfl, hoffset⟩ := Operand.exists_of_kind hsecond
  rw [List.map_eq_nil_iff.mp hnil] at hoperands
  exact ⟨segment, offset, hoperands, hsegment, hoffset⟩

-- ============================================================= operands

/-- No row has more operands than two, or two in memory. -/
theorem few_operands : l.instruction.operands.length ≤ 2
    ∧ l.instruction.operands.countP Operand.isMemory ≤ 1 := by
  have hlaw := law_of_every (fun _ _ kinds =>
    decide (kinds.length ≤ 2 ∧ kinds.countP Operand.Kind.isMemory ≤ 1)) (by decide +kernel) l
  have hkind : Operand.isMemory = Operand.Kind.isMemory ∘ Operand.kind := by
    funext operand
    cases operand <;> rfl
  rw [hkind, ← List.countP_map, ← List.length_map Operand.kind]
  exact of_decide_eq_true hlaw

/-- A memory operand is as wide as the operation. An escape has no width,
and a word for the coprocessor. -/
theorem size_of_memory {m : MemoryReference} (h : .memory m ∈ l.instruction.operands) :
    (l.instruction.mnemonic = .ESC ∧ l.instruction.width = .none ∧ m.size = .word)
      ∨ (l.instruction.mnemonic ≠ .ESC ∧ m.size = l.instruction.width) := by
  have hsize : m.size = if l.instruction.mnemonic = .ESC then .word else l.instruction.width :=
    of_decide_eq_true (l.fits_operand h)
  have hescape := l.row_law (fun _ row => !decide (row.mnemonic = .ESC) ||
    decide (row.width = .none)) (by decide +kernel)
  by_cases hmnemonic : l.instruction.mnemonic = .ESC
  · have hrow : l.row.mnemonic = .ESC := hmnemonic
    have hwidth : l.row.width = .none := by simpa [hrow] using hescape
    rw [if_pos hmnemonic] at hsize
    exact Or.inl ⟨hmnemonic, hwidth, hsize⟩
  · rw [if_neg hmnemonic] at hsize
    exact Or.inr ⟨hmnemonic, hsize⟩

theorem displaced_of_memory {m : MemoryReference} (h : .memory m ∈ l.instruction.operands) :
    m.Displaced := by
  obtain ⟨p, field, -, hm⟩ := l.exists_pattern h
  have hctx : l.context.displacement = l.context.modRM.displacementOf (l.head.drop 1) := rfl
  exact Pattern.displaced_of_mem hctx hm

/-- A register is as wide as the operation, a port and a count excepted. -/
theorem fits_register {r : Register} (h : .register r ∈ l.instruction.operands) :
    r.fits l.instruction.mnemonic l.instruction.width = true := by
  have hlaw := l.row_law (fun _ row => row.first.registersFit row.mnemonic row.width &&
    row.second.registersFit row.mnemonic row.width) (by decide +kernel)
  rw [Bool.and_eq_true] at hlaw
  obtain ⟨p, field, hp, hr⟩ := l.exists_pattern h
  rcases hp with rfl | rfl
  · exact Pattern.register_of_mem hlaw.1 hr
  · exact Pattern.register_of_mem hlaw.2 hr

/-- A segment register is loaded from outside, except `CS`. -/
theorem exists_segment_of_load (h : l.opcode = 0x8E) :
    ∃ s : Segment, s ≠ .CS ∧ l.instruction.operands.head? = some (.register s.register) := by
  have hlaw := l.row_law (fun op row => !decide (op = 0x8E) ||
    decide (row.first = .segmentTarget)) (by decide +kernel)
  have hfirst : l.row.first = .segmentTarget := by simpa [h] using hlaw
  have haccepted := l.accepted
  rw [Row.accepts, hfirst, Bool.and_eq_true] at haccepted
  obtain ⟨s, hs, hcs⟩ := (Option.any_eq_true ..).mp haccepted.1
  refine ⟨s, by simpa using hcs, ?_⟩
  have hreverses : l.row.reversesRegisters = false := by
    rw [Row.reversesRegisters, hfirst]
    rfl
  show (l.row.operandsOf l.context l.field).head? = _
  rw [Row.operandsOf, hreverses, Row.encodedOperands, hfirst]
  have hsegment : l.context.modRM.segment? = some s := hs
  simp [Pattern.operandsOf, hsegment]

-- ===================================================== prefixes and length

/-- Of two repeat prefixes, the later one replaces the other. -/
theorem not_isRep_and_isRepne :
    ¬ (l.instruction.isRep = true ∧ l.instruction.isRepne = true) := by
  have hprefixes : l.instruction.prefixes = (PrefixSummary.ofRun l.run).prefixes :=
    (PrefixSummary.prefixes_ofRun l.run_prefix).symm
  unfold Instruction.isRep Instruction.isRepne
  rw [hprefixes]
  obtain ⟨override, locked, repetition⟩ := PrefixSummary.ofRun l.run
  rcases override with _ | (_ | _ | _ | _) <;> cases locked <;>
    rcases repetition with _ | (_ | _) <;> decide

/-- Behind the prefixes there is an opcode, and at most five bytes more. -/
theorem length_bytes_bounds : l.run.length + 1 ≤ l.bytes.length
    ∧ l.bytes.length ≤ l.run.length + 6 := by
  have hrest := l.toHeading.length_head_add_fieldSize_le
  rw [← l.field_size] at hrest
  simp only [bytes, Heading.bytes, Opening.bytes, List.length_append, List.length_singleton]
  omega

theorem wellFormed : l.instruction.WellFormed l.run.length where
  assigned := l.assigned
  length_operands := l.few_operands.1
  one_memory := l.few_operands.2
  length := l.length_bytes_bounds
  override _ h := l.regular_operand h
  direct _ h := (l.displaced_of_memory h).1
  based _ h := (l.displaced_of_memory h).2
  size _ h := l.size_of_memory h
  byte_registers hwidth r h := by
    have hfits := l.fits_register h
    rw [hwidth] at hfits
    simpa [Register.fits] using hfits
  word_registers hwidth r h := by
    have hfits := l.fits_register h
    rw [hwidth] at hfits
    simpa [Register.fits] using hfits
  far_pointer _ h hrole := l.exists_farPointer h hrole
  one_repeat := l.not_isRep_and_isRepne
  segment_load h := l.exists_segment_of_load h

end Layout

/-- Every instruction that is decoded is well formed, wherever the cursor
stands. -/
theorem decode_wellFormed {c next : Cursor} {i : Instruction} (h : c.decode = (.ok i, next)) :
    i.WellFormed (c.rest.takeWhile Prefix.isByte).length := by
  cases hread : Instruction.read (.ofBytes c.rest) with
  | error fault feed =>
      rw [Cursor.decode_of_read_error hread] at h
      cases h
  | ok j feed =>
      obtain ⟨l, rest, hbytes, rfl, -⟩ := exists_layout_of_read_ok hread
      rw [Cursor.decode_of_read_ok hread] at h
      cases h
      rw [hbytes, takeWhile_bytes_append]
      exact l.wellFormed

/-- A rotation by `CL` of a byte in memory, behind three prefixes. -/
theorem decode_wellFormed_of_prefixed_rotation : ∃ i next,
    (Cursor.ofBytes [0xF3, 0x2E, 0x26, 0xD2, 0x46, 0x05]).decode = (.ok i, next)
      ∧ i.operands.length = 2 ∧ i.WellFormed 3 :=
  ⟨_, _, rfl, rfl, decode_wellFormed (c := .ofBytes [0xF3, 0x2E, 0x26, 0xD2, 0x46, 0x05]) rfl⟩

end Disasm8086
