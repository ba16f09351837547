/-
The encoding of an instruction, recovered from its opcode, mnemonic and
operands. The encoder follows the encoding rules of the 8086 and does
not look at the opcode map: the opcode comes first, then a ModRM byte
for the opcodes that have one, then a displacement and the immediate
bytes, low bytes first. Prefixes are not encoded: a run of them is not
determined by what it means.

Decoded bytes are a run of prefixes and the encoding of the instruction
that they decode to. No operand loses anything on the way: not the
register numbers, nor the sign-extended constants, nor the operands that
are listed in the other order.

# The argument

Decoded bytes have a layout, so it is enough that the encoder gives back
the opcode, the head and the field of a layout:

- `Heading.encodeRM_rmOperand`: the r/m operand holds the whole head but
  for the middle field of the ModRM byte;
- `Layout.modRMFields_instruction`: the encoder finds that operand and
  the middle field among the operands, whatever their order;
- `Layout.encodeField_instruction`: the constants hold the field.
-/
import Disasm8086.Proofs.Layout

namespace Disasm8086

open Reader Opcode

-- ============================================================ numbers

/-- The number by which an encoding names a register. -/
def Register.number : Register → Nat
  | .AL | .AX | .ES => 0
  | .CL | .CX | .CS => 1
  | .DL | .DX | .SS => 2
  | .BL | .BX | .DS => 3
  | .AH | .SP => 4
  | .CH | .BP => 5
  | .DH | .SI => 6
  | .BH | .DI => 7

/-- The number by which an encoding names an addressing mode. The direct
address stands in the place of `BP` without displacement. -/
def AddressingMode.number : AddressingMode → Nat
  | .bxSi => 0
  | .bxDi => 1
  | .bpSi => 2
  | .bpDi => 3
  | .si => 4
  | .di => 5
  | .bp | .direct => 6
  | .bx => 7

/-- The place of an operation in its group. -/
def Mnemonic.extension : Mnemonic → Nat
  | .OR | .ROR | .DEC => 1
  | .ADC | .RCL | .NOT | .CALL => 2
  | .SBB | .RCR | .NEG | .CALLF => 3
  | .AND | .SHL | .MUL | .JMP => 4
  | .SUB | .SHR | .IMUL | .JMPF => 5
  | .XOR | .DIV | .PUSH => 6
  | .CMP | .SAR | .IDIV => 7
  | _ => 0

/-- The opcodes whose constant takes no bytes of its own: shifts by one,
and escapes, which hold theirs in the opcode and the ModRM byte. -/
def Opcode.impliesConstant (op : UInt8) : Bool :=
  op == 0xD0 || op == 0xD1 || (0xD8 ≤ op && op ≤ 0xDF)

-- ============================================================ encoder

/-- The bytes of a word, low byte first. -/
def wordBytes (w : UInt16) : List UInt8 := [w.toUInt8, (w >>> 8).toUInt8]

/-- The ModRM byte with the given fields. -/
def modRMByte (mod reg rm : Nat) : UInt8 := UInt8.ofNat (mod * 64 + reg * 8 + rm)

/-- The bytes of a displacement. -/
def Displacement.encode : Displacement → List UInt8
  | .none => []
  | .byte d => [d.toUInt8]
  | .word d => wordBytes d.toUInt16

/-- The top field of the ModRM byte: it tells how wide the displacement
is, which a direct address shows by its mode instead. -/
def MemoryReference.mod (m : MemoryReference) : Nat :=
  match m.mode, m.displacement with
  | .direct, _ => 0
  | _, .none => 0
  | _, .byte _ => 1
  | _, .word _ => 2

/-- ModRM byte and displacement of the operand in the r/m field, beside
the given middle field. -/
def Operand.encodeRM (reg : Nat) : Operand → List UInt8
  | .register r => [modRMByte 3 reg r.number]
  | .memory m => modRMByte m.mod reg m.mode.number :: m.displacement.encode
  | .immediate _ => []

/-- The bytes of a constant: none where it is implied, one where it is a
byte or abbreviated to one, and two otherwise. -/
def Immediate.encode (opcode : UInt8) (c : Immediate) : List UInt8 :=
  if impliesConstant opcode then []
  else if opcode = 0x83 ∨ c.width = .byte then [c.toWord.toUInt8]
  else wordBytes c.toWord

/-- The bytes of an operand behind the head. -/
def Operand.encodeField (opcode : UInt8) : Operand → List UInt8
  | .register _ => []
  | .memory m => if takesModRM opcode then [] else m.displacement.encode
  | .immediate c => c.encode opcode

namespace Instruction

/-- The operand in the r/m field, and the middle field. The latter extends
the opcode of a group and holds the low bits of an external opcode;
otherwise it names the other register. Of two registers the r/m field
has the first, unless that is a segment register. -/
def modRMFields (i : Instruction) : Option (Operand × Nat) :=
  if isGroup i.opcode then i.operands.head?.map (·, i.mnemonic.extension)
  else
    match i.operands with
    | [.immediate c, rm] => some (rm, c.toWord.toNat % 8)
    | [.memory m, .register r] => some (.memory m, r.number)
    | [.register r, .memory m] => some (.memory m, r.number)
    | [.register r, .register s] =>
      if r.isSegment then some (.register s, r.number) else some (.register r, s.number)
    | _ => none

/-- The ModRM byte and the displacement, where the opcode has them. -/
def encodeHead (i : Instruction) : List UInt8 :=
  if takesModRM i.opcode then
    match i.modRMFields with
    | some (rm, reg) => rm.encodeRM reg
    | none => []
  else []

/-- The immediate bytes. Only a far pointer has two constants, of which
the offset is listed last and comes first. -/
def encodeField (i : Instruction) : List UInt8 :=
  i.operands.reverse.flatMap (Operand.encodeField i.opcode)

/-- The bytes of an instruction behind its prefixes. -/
def encode (i : Instruction) : List UInt8 := i.opcode :: (i.encodeHead ++ i.encodeField)

end Instruction

-- ====================================================== words and bits

/-- A word that is put together from two bytes is taken apart into them. -/
theorem wordBytes_littleEndian (low high : UInt8) :
    wordBytes (littleEndian low high) = [low, high] := by
  have hlow := low.toNat_lt
  have hhigh := high.toNat_lt
  have h1 : (littleEndian low high).toUInt8 = low := by
    refine UInt8.toNat_inj.mp ?_
    simp [littleEndian]
  have h2 : (littleEndian low high >>> 8).toUInt8 = high := by
    refine UInt8.toNat_inj.mp ?_
    simp only [littleEndian, UInt16.toNat_toUInt8, UInt16.toNat_shiftRight,
      UInt16.toNat_ofNat', UInt16.reduceToNat, Nat.shiftRight_eq_div_pow, Nat.reduceMod,
      Nat.reducePow]
    omega
  rw [wordBytes, h1, h2]

/-- A field of two bytes is the bytes of its word. -/
theorem wordBytes_wordOf {field : List UInt8} (h : field.length = 2) :
    wordBytes (wordOf field) = field := by
  match field, h with
  | [low, high], _ => exact wordBytes_littleEndian low high

theorem singleton_byteOf {field : List UInt8} (h : field.length = 1) :
    [byteOf field] = field := by
  match field, h with
  | [b], _ => rfl

namespace ModRM

theorem modRMByte_fields (m : ModRM) :
    modRMByte m.mod.val m.reg.val m.rm.val = m.byte := by
  have hbyte := m.byte.toNat_lt
  refine UInt8.toNat_inj.mp ?_
  simp only [modRMByte, mod, reg, rm, UInt8.toNat_ofNat', Fin.ofNat]
  omega

/-- The register in the r/m field is encoded by this field. -/
theorem number_rmRegister (m : ModRM) (w : Width) : (m.rmRegister w).number = m.rm.val := by
  unfold rmRegister
  generalize m.rm = rm
  cases w <;> revert rm <;> decide

theorem number_regRegister (m : ModRM) (w : Width) : (m.regRegister w).number = m.reg.val := by
  unfold regRegister
  generalize m.reg = reg
  cases w <;> revert reg <;> decide

/-- The r/m field never names a segment register. -/
theorem isSegment_rmRegister (m : ModRM) (w : Width) : (m.rmRegister w).isSegment = false := by
  unfold rmRegister
  generalize m.rm = rm
  cases w <;> revert rm <;> decide

/-- A segment register is encoded by the middle field. -/
theorem number_segment {m : ModRM} {s : Segment} (h : m.segment? = some s) :
    s.register.number = m.reg.val := by
  unfold segment? at h
  generalize m.reg = reg at h ⊢
  revert reg
  cases s <;> decide

end ModRM

-- =============================================================== head

/-- An addressing mode is encoded by the r/m field that it was read from. -/
theorem AddressingMode.number_ofNumber (rm : Fin 8) : (ofNumber rm).number = rm.val := by
  revert rm
  decide

theorem AddressingMode.ofNumber_ne_direct (rm : Fin 8) : ofNumber rm ≠ .direct := by
  revert rm
  decide

/-- Unless the address is direct, its displacement shows in the top field. -/
theorem MemoryReference.mod_of_ne_direct {m : MemoryReference} (h : m.mode ≠ .direct) :
    m.mod = match m.displacement with
      | .none => 0
      | .byte _ => 1
      | .word _ => 2 := by
  unfold mod
  cases hmode : m.mode with
  | direct => exact absurd hmode h
  | _ => cases m.displacement <;> rfl

namespace OperandContext

/-- Memory operand of a register mode: mode number and displacement are
in the bottom field and behind the byte. -/
theorem encodeRM_rmOperand_of_mode {ctx : OperandContext} (size : Width)
    (hmode : ctx.modRM.mode? = some (.ofNumber ctx.modRM.rm))
    (hmod : ctx.modRM.mod.val = match ctx.displacement with
      | .none => 0
      | .byte _ => 1
      | .word _ => 2) :
    (ctx.rmOperand size).encodeRM ctx.modRM.reg.val
      = ctx.modRM.byte :: ctx.displacement.encode := by
  have hmemory : ctx.memory? size = some
      { mode := .ofNumber ctx.modRM.rm, displacement := ctx.displacement,
        override := ctx.override, size } := by
    rw [memory?, ModRM.memory?, hmode]
    rfl
  rw [rmOperand, hmemory]
  show modRMByte (MemoryReference.mod _) _ _ :: _ = _
  rw [MemoryReference.mod_of_ne_direct (AddressingMode.ofNumber_ne_direct _), ← hmod,
    AddressingMode.number_ofNumber, ModRM.modRMByte_fields]

/-- The r/m operand holds the ModRM byte and the displacement, but for the
middle field. -/
theorem encodeRM_rmOperand (ctx : OperandContext) (size : Width) {field : List UInt8}
    (hsize : field.length = ctx.modRM.displacementSize)
    (hdisplacement : ctx.displacement = ctx.modRM.displacementOf field) :
    (ctx.rmOperand size).encodeRM ctx.modRM.reg.val = ctx.modRM.byte :: field := by
  have hfields := ctx.modRM.modRMByte_fields
  have hfour : ∀ k : Fin 4, k = 0 ∨ k = 1 ∨ k = 2 ∨ k = 3 := by decide
  unfold ModRM.displacementSize at hsize
  unfold ModRM.displacementOf at hdisplacement
  rcases hfour ctx.modRM.mod with hmod | hmod | hmod | hmod
  · by_cases hrm : ctx.modRM.rm = 6
    · -- the direct address
      have hwidth : ctx.modRM.displacementWidth = .word := by
        simp [ModRM.displacementWidth, hmod, hrm]
      rw [hwidth] at hsize hdisplacement
      have hmemory : ctx.memory? size = some
          { mode := .direct, displacement := ctx.displacement,
            override := ctx.override, size } := by
        simp [memory?, ModRM.memory?, ModRM.mode?, hmod, hrm]
      rw [rmOperand, hmemory]
      rw [hmod, hrm] at hfields
      show modRMByte 0 ctx.modRM.reg.val 6 :: ctx.displacement.encode = _
      rw [show modRMByte 0 ctx.modRM.reg.val 6 = _ from hfields, hdisplacement]
      exact congrArg _ (wordBytes_wordOf hsize)
    · have hwidth : ctx.modRM.displacementWidth = .none := by
        simp [ModRM.displacementWidth, hmod, hrm]
      rw [hwidth] at hsize hdisplacement
      rw [encodeRM_rmOperand_of_mode size (by simp [ModRM.mode?, hmod, hrm])
        (by rw [hdisplacement, hmod]; rfl), hdisplacement, List.length_eq_zero_iff.mp hsize]
      rfl
  · have hwidth : ctx.modRM.displacementWidth = .byte := by
      simp [ModRM.displacementWidth, hmod]
    rw [hwidth] at hsize hdisplacement
    rw [encodeRM_rmOperand_of_mode size (by simp [ModRM.mode?, hmod])
      (by rw [hdisplacement, hmod]; rfl), hdisplacement]
    exact congrArg _ (singleton_byteOf hsize)
  · have hwidth : ctx.modRM.displacementWidth = .word := by
      simp [ModRM.displacementWidth, hmod]
    rw [hwidth] at hsize hdisplacement
    rw [encodeRM_rmOperand_of_mode size (by simp [ModRM.mode?, hmod])
      (by rw [hdisplacement, hmod]; rfl), hdisplacement]
    exact congrArg _ (wordBytes_wordOf hsize)
  · -- the register form
    have hwidth : ctx.modRM.displacementWidth = .none := by
      simp [ModRM.displacementWidth, hmod]
    rw [hwidth] at hsize
    rw [ctx.rmOperand_of_register size (by simp [ModRM.isMemory, hmod])]
    rw [hmod] at hfields
    show [modRMByte 3 ctx.modRM.reg.val (ctx.modRM.rmRegister size).number] = _
    rw [ModRM.number_rmRegister, show modRMByte 3 _ _ = _ from hfields,
      List.length_eq_zero_iff.mp hsize]

end OperandContext

theorem Heading.encodeRM_rmOperand (h : Heading) (hmodRM : takesModRM h.opcode = true)
    (size : Width) : (h.context.rmOperand size).encodeRM h.modRM.reg.val = h.head := by
  have hsize := h.head_size
  rw [Row.headSize, Row.hasModRM_ofOpcode, if_pos hmodRM] at hsize
  have hfield : (h.head.drop 1).length = h.modRM.displacementSize := by
    rw [List.length_drop, hsize, Nat.add_sub_cancel_left]
    rfl
  have hencode := h.context.encodeRM_rmOperand size hfield rfl
  rw [show h.context.modRM = h.modRM from rfl] at hencode
  rw [hencode]
  cases hhead : h.head with
  | nil => simp [hhead] at hsize; omega
  | cons b field => simp [modRM, Row.modRMOf, hhead, byteOf]

namespace Instruction

variable {i : Instruction} {ctx : OperandContext} {size : Width}

/-- The r/m operand comes first and a register second. -/
theorem modRMFields_rm_register (hgroup : isGroup i.opcode = false) {r : Register}
    (hoperands : i.operands = [ctx.rmOperand size, .register r]) :
    i.modRMFields = some (ctx.rmOperand size, r.number) := by
  rw [modRMFields, hgroup, hoperands]
  rcases ctx.rmOperand_cases size with ⟨-, m, hm, -⟩ | ⟨-, hr⟩
  · rw [hm]
    rfl
  · rw [hr]
    simp [ModRM.isSegment_rmRegister]

/-- A register comes first. That the r/m operand is the second one shows
only if it lies in memory, or if the first is a segment register. -/
theorem modRMFields_register_rm (hgroup : isGroup i.opcode = false) {r : Register}
    (hoperands : i.operands = [.register r, ctx.rmOperand size])
    (hshows : ctx.modRM.isMemory = true ∨ r.isSegment = true) :
    i.modRMFields = some (ctx.rmOperand size, r.number) := by
  rw [modRMFields, hgroup, hoperands]
  rcases ctx.rmOperand_cases size with ⟨-, m, hm, -⟩ | ⟨hform, hr⟩
  · rw [hm]
    rfl
  · rw [hform] at hshows
    have hsegment : r.isSegment = true := hshows.resolve_left Bool.false_ne_true
    rw [hr]
    simp [hsegment]

/-- Loads list the r/m operand second in memory form and first in register
form, so it shows in both. -/
theorem modRMFields_of_load (hgroup : isGroup i.opcode = false)
    (hmemory : ctx.modRM.isMemory = true →
      i.operands = [.register (ctx.modRM.regRegister size), ctx.rmOperand size])
    (hregister : ctx.modRM.isMemory = false →
      i.operands = [ctx.rmOperand size, .register (ctx.modRM.regRegister size)]) :
    i.modRMFields = some (ctx.rmOperand size, ctx.modRM.reg.val) := by
  cases hform : ctx.modRM.isMemory with
  | true =>
      rw [modRMFields_register_rm hgroup (hmemory hform) (Or.inl hform),
        ModRM.number_regRegister]
  | false =>
      rw [modRMFields_rm_register hgroup (hregister hform), ModRM.number_regRegister]

/-- The middle field of an escape is in its external opcode. -/
theorem modRMFields_external (hgroup : isGroup i.opcode = false)
    (hoperands : i.operands = [.immediate ((Immediate.byte ctx.externalOpcode).withRole
      .unsigned), ctx.rmOperand size]) :
    i.modRMFields = some (ctx.rmOperand size, ctx.modRM.reg.val) := by
  have hword : ((Immediate.byte ctx.externalOpcode).withRole .unsigned).toWord.toNat
      = ctx.opcode.toNat % 8 * 8 + ctx.modRM.reg.val := by
    have hlt : ctx.opcode.toNat % 8 * 8 + ctx.modRM.reg.val < 256 := by omega
    show (ctx.externalOpcode.toInt8.toInt16.toUInt16.toUInt8.toUInt16).toNat = _
    rw [toUInt8_toInt16, UInt8.toNat_toUInt16]
    exact UInt8.toNat_ofNat_of_lt' hlt
  rw [modRMFields, hgroup, hoperands]
  show some (_, _ % 8) = _
  rw [hword]
  congr 2
  omega

end Instruction

namespace Row

/-- In a group the r/m operand comes first, and the operation shows its
place. -/
theorem group_entry {op : UInt8} {reg : Fin 8} (hgroup : isGroup op = true)
    (hassigned : (entry op reg).mnemonic ≠ .invalid) :
    (entry op reg).mnemonic.extension = reg.val
      ∧ ((entry op reg).first = .rm8 ∨ (entry op reg).first = .rm16
        ∨ (entry op reg).first = .mem) := by
  have hlaw := every_entry (fun op reg row => !isGroup op || row.mnemonic == .invalid ||
    (row.mnemonic.extension == reg.val &&
      (row.first == .rm8 || row.first == .rm16 || row.first == .mem)))
    (by decide +kernel) op reg
  simpa [hgroup, hassigned, or_assoc] using hlaw

/-- The pairs of operands that a ModRM byte encodes outside of groups. -/
def modRMPairs : List (Pattern × Pattern) :=
  [(.rm8, .reg8), (.rm16, .reg16), (.rm16, .segment), (.reg8, .rm8), (.reg16, .rm16),
   (.reg16, .mem), (.segmentTarget, .rm16), (.external, .rm16)]

/-- Outside of groups, a ModRM byte encodes one of the pairs. -/
theorem pair_entry {op : UInt8} (reg : Fin 8) (hmodRM : takesModRM op = true)
    (hgroup : isGroup op = false) :
    ((entry op reg).first, (entry op reg).second) ∈ modRMPairs := by
  have hlaw := every_entry (fun op _ row => !takesModRM op || isGroup op ||
    decide ((row.first, row.second) ∈ modRMPairs)) (by decide +kernel) op reg
  rw [hmodRM, hgroup] at hlaw
  exact of_decide_eq_true hlaw

end Row

namespace Instruction

variable {i : Instruction} {ctx : OperandContext} {row : Row} {field : List UInt8}

/-- In a group the encoder takes the first operand and the place of the
operation. -/
theorem modRMFields_of_group (hgroup : isGroup i.opcode = true)
    (hoperands : i.operands = row.operandsOf ctx field)
    (hextension : i.mnemonic.extension = ctx.modRM.reg)
    (hfirst : row.first = .rm8 ∨ row.first = .rm16 ∨ row.first = .mem) :
    ∃ size, i.modRMFields = some (ctx.rmOperand size, ctx.modRM.reg.val) := by
  have hhead : ∃ size, i.operands.head? = some (ctx.rmOperand size) := by
    rw [hoperands, Row.operandsOf, Row.encodedOperands, Row.reversesRegisters]
    rcases hfirst with hfirst | hfirst | hfirst
    · exact ⟨.byte, by rw [hfirst]; rfl⟩
    · exact ⟨.word, by rw [hfirst]; rfl⟩
    · exact ⟨.word, by rw [hfirst]; rfl⟩
  obtain ⟨size, hhead⟩ := hhead
  refine ⟨size, ?_⟩
  rw [modRMFields, if_pos hgroup, hhead, hextension]
  rfl

/-- Outside of groups it tells the two operands apart. -/
theorem modRMFields_of_pair (hgroup : isGroup i.opcode = false)
    (hoperands : i.operands = row.operandsOf ctx field)
    (haccepts : row.accepts ctx.modRM = true)
    (hpair : (row.first, row.second) ∈ Row.modRMPairs) :
    ∃ size, i.modRMFields = some (ctx.rmOperand size, ctx.modRM.reg.val) := by
  obtain ⟨mnemonic, width, first, second, group⟩ := row
  simp only [Row.modRMPairs, List.mem_cons, Prod.mk.injEq, List.not_mem_nil, or_false] at hpair
  rcases hpair with ⟨rfl, rfl⟩ | ⟨rfl, rfl⟩ | ⟨rfl, rfl⟩ | ⟨rfl, rfl⟩ | ⟨rfl, rfl⟩ | ⟨rfl, rfl⟩
    | ⟨rfl, rfl⟩ | ⟨rfl, rfl⟩
  · refine ⟨.byte, ?_⟩
    rw [modRMFields_rm_register hgroup hoperands, ModRM.number_regRegister]
  · refine ⟨.word, ?_⟩
    rw [modRMFields_rm_register hgroup hoperands, ModRM.number_regRegister]
  · -- a segment register is stored: the row has accepted its number
    refine ⟨.word, ?_⟩
    obtain ⟨s, hs⟩ := Option.isSome_iff_exists.mp haccepts
    have hlist : i.operands = [ctx.rmOperand .word, .register s.register] := by
      rw [hoperands]
      show ctx.rmOperand .word :: (ctx.modRM.segment?.toList.map _) = _
      rw [hs]
      rfl
    rw [modRMFields_rm_register hgroup hlist, ModRM.number_segment hs]
  · refine ⟨.byte, modRMFields_of_load hgroup (fun hform => ?_) fun hform => ?_⟩
    · rw [hoperands, Row.operandsOf, hform]
      rfl
    · rw [hoperands, Row.operandsOf, hform]
      rfl
  · refine ⟨.word, modRMFields_of_load hgroup (fun hform => ?_) fun hform => ?_⟩
    · rw [hoperands, Row.operandsOf, hform]
      rfl
    · rw [hoperands, Row.operandsOf, hform]
      rfl
  · -- the address of a memory operand, which the row has accepted
    refine ⟨.word, ?_⟩
    have hform : ctx.modRM.isMemory = true := haccepts
    rw [modRMFields_register_rm hgroup hoperands (Or.inl hform), ModRM.number_regRegister]
  · -- a segment register is loaded: it comes first, and shows that it does
    refine ⟨.word, ?_⟩
    rw [Row.accepts, Bool.and_eq_true] at haccepts
    obtain ⟨s, hs, -⟩ := (Option.any_eq_true ..).mp haccepts.1
    have hlist : i.operands = [.register s.register, ctx.rmOperand .word] := by
      rw [hoperands]
      show ctx.modRM.segment?.toList.map _ ++ _ = _
      rw [hs]
      rfl
    have hsegment : s.register.isSegment = true := by cases s <;> rfl
    rw [modRMFields_register_rm hgroup hlist (Or.inr hsegment), ModRM.number_segment hs]
  · exact ⟨.word, modRMFields_external hgroup hoperands⟩

end Instruction

/-- The encoder gives back the head of a layout. -/
theorem Layout.encodeHead_instruction (l : Layout) : l.instruction.encodeHead = l.head := by
  show (if takesModRM l.opcode = true then _ else _) = _
  by_cases hmodRM : takesModRM l.opcode = true
  · have hfields : ∃ size, l.instruction.modRMFields
        = some (l.context.rmOperand size, l.modRM.reg.val) := by
      by_cases hgroup : isGroup l.opcode = true
      · obtain ⟨hextension, hfirst⟩ := Row.group_entry hgroup l.assigned
        exact Instruction.modRMFields_of_group hgroup rfl hextension hfirst
      · have hplain : isGroup l.opcode = false := by simpa using hgroup
        exact Instruction.modRMFields_of_pair hplain rfl l.accepted
          (Row.pair_entry l.modRM.reg hmodRM hplain)
    obtain ⟨size, hsize⟩ := hfields
    rw [if_pos hmodRM, hsize]
    exact l.encodeRM_rmOperand hmodRM size
  · have hsize := l.head_size
    rw [Row.headSize, Row.hasModRM_ofOpcode, if_neg hmodRM] at hsize
    rw [if_neg hmodRM, List.length_eq_zero_iff.mp hsize]

-- ============================================================== field

namespace Immediate

variable {op : UInt8}

theorem encode_of_implied (himplied : impliesConstant op = true) (c : Immediate) :
    c.encode op = [] := by
  rw [encode, if_pos himplied]

theorem encode_byte (himplied : impliesConstant op = false) {field : List UInt8}
    (hsize : field.length = 1) (role : Role) :
    ((byte (byteOf field)).withRole role).encode op = field := by
  have hbyte : ((byte (byteOf field)).withRole role).width = .byte := rfl
  rw [encode, himplied, if_neg Bool.false_ne_true, if_pos (Or.inr hbyte)]
  show [((byteOf field).toInt8.toInt16.toUInt16.toUInt8.toUInt16).toUInt8] = _
  rw [toUInt8_toInt16, UInt8.toUInt8_toUInt16, singleton_byteOf hsize]

theorem encode_word (himplied : impliesConstant op = false) (hextended : op ≠ 0x83)
    {field : List UInt8} (hsize : field.length = 2) (role : Role) :
    ((word (wordOf field)).withRole role).encode op = field := by
  rw [encode, himplied, if_neg Bool.false_ne_true, if_neg]
  · exact wordBytes_wordOf hsize
  · rintro (hop | hwidth)
    · exact hextended hop
    · cases hwidth

/-- A word that was extended from a byte is encoded by that byte. -/
theorem encode_signExtended {field : List UInt8} (hsize : field.length = 1) :
    (signExtended (byteOf field).toInt8).encode 0x83 = field := by
  show [(byteOf field).toInt8.toInt16.toUInt16.toUInt8] = _
  rw [toUInt8_toInt16, singleton_byteOf hsize]

end Immediate

namespace Pattern

/-- Whether the bytes of an operand stand where the opcode says: in the
head, in the field, or nowhere. -/
def fits (op : UInt8) : Pattern → Bool
  | .rm8 | .rm16 | .mem => takesModRM op
  | .offset8 | .offset16 => !takesModRM op
  | .implied _ | .external => impliesConstant op
  | .imm8Extended => op == 0x83
  | .imm8 | .imm8Unsigned | .rel8 => !impliesConstant op
  | .imm16 | .imm16Unsigned | .rel16 | .farPointer => !impliesConstant op && op != 0x83
  | _ => true

variable {op : UInt8} {field : List UInt8}

/-- Words are encoded in full, so neither implied nor abbreviated. -/
theorem full_of_fits (h : (!impliesConstant op && op != 0x83) = true) :
    impliesConstant op = false ∧ op ≠ 0x83 := by
  obtain ⟨himplied, hextended⟩ := Bool.and_eq_true_iff.mp h
  exact ⟨(Bool.not_eq_true' _).mp himplied, bne_iff_ne.mp hextended⟩

/-- The operand in the r/m field has nothing behind the head. -/
theorem encodeField_rmOperand (hmodRM : takesModRM op = true) (ctx : OperandContext)
    (size : Width) : (ctx.rmOperand size).encodeField op = [] := by
  rcases ctx.rmOperand_cases size with ⟨-, m, hm, -⟩ | ⟨-, hr⟩
  · rw [hm, Operand.encodeField, if_pos hmodRM]
  · rw [hr, Operand.encodeField]

/-- An address without a ModRM byte stands in the field. -/
theorem encodeField_directOperand (hmodRM : takesModRM op = false)
    (hsize : field.length = 2) (ctx : OperandContext) (size : Width) :
    (ctx.directOperand size (wordOf field)).encodeField op = field := by
  rw [OperandContext.directOperand, Operand.encodeField, hmodRM, if_neg Bool.false_ne_true]
  exact wordBytes_wordOf hsize

/-- The operands of a pattern hold its bytes. -/
theorem encodeField_operandsOf (ctx : OperandContext) {p : Pattern}
    (hsize : field.length = p.size) (hfits : p.fits op = true) :
    (p.operandsOf ctx field).reverse.flatMap (Operand.encodeField op) = field := by
  cases p with
  | none | reg8 | reg16 | fixed r => exact (List.length_eq_zero_iff.mp hsize).symm
  | rm8 | rm16 | mem =>
      rw [List.length_eq_zero_iff.mp hsize]
      exact (List.append_nil _).trans (encodeField_rmOperand hfits ctx _)
  | segment | segmentTarget =>
      rw [List.length_eq_zero_iff.mp hsize]
      show (ctx.modRM.segment?.toList.map _).reverse.flatMap _ = []
      cases ctx.modRM.segment? <;> rfl
  | implied value =>
      rw [List.length_eq_zero_iff.mp hsize]
      exact (List.append_nil _).trans (Immediate.encode_of_implied hfits _)
  | external =>
      rw [List.length_eq_zero_iff.mp hsize]
      exact (List.append_nil _).trans (Immediate.encode_of_implied hfits _)
  | offset8 | offset16 =>
      have hmodRM : takesModRM op = false := (Bool.not_eq_true' _).mp hfits
      exact (List.append_nil _).trans (encodeField_directOperand hmodRM hsize ctx _)
  | imm8Extended =>
      rw [beq_iff_eq.mp hfits]
      exact (List.append_nil _).trans (Immediate.encode_signExtended hsize)
  | imm8 | imm8Unsigned | rel8 =>
      have himplied : impliesConstant op = false := (Bool.not_eq_true' _).mp hfits
      exact (List.append_nil _).trans (Immediate.encode_byte himplied hsize _)
  | imm16 | imm16Unsigned | rel16 =>
      obtain ⟨himplied, hextended⟩ := full_of_fits hfits
      exact (List.append_nil _).trans (Immediate.encode_word himplied hextended hsize _)
  | farPointer =>
      obtain ⟨himplied, hextended⟩ := full_of_fits hfits
      have hoffset : (field.take 2).length = 2 := by
        rw [List.length_take, hsize]
        rfl
      have hsegment : (field.drop 2).length = 2 := by
        rw [List.length_drop, hsize]
        rfl
      show Immediate.encode op _ ++ (Immediate.encode op _ ++ []) = field
      rw [Immediate.encode_word himplied hextended hoffset,
        Immediate.encode_word himplied hextended hsegment, List.append_nil,
        List.take_append_drop]

end Pattern

namespace Row

/-- In every row the operands stand where the opcode says. -/
theorem fits_entry (op : UInt8) (reg : Fin 8) :
    (entry op reg).first.fits op = true ∧ (entry op reg).second.fits op = true := by
  have hlaw := every_entry (fun op _ row => row.first.fits op && row.second.fits op)
    (by decide +kernel) op reg
  exact Bool.and_eq_true_iff.mp hlaw

/-- Only one of two operands has bytes of its own. -/
theorem size_entry (op : UInt8) (reg : Fin 8) :
    (entry op reg).first.size = 0 ∨ (entry op reg).second.size = 0 := by
  have hlaw := every_entry (fun _ _ row => row.first.size == 0 || row.second.size == 0)
    (by decide +kernel) op reg
  simpa using hlaw

/-- Registers that change places have no bytes to lose. -/
theorem fieldSize_of_reversesRegisters {row : Row} (h : row.reversesRegisters = true) :
    row.fieldSize = 0 := by
  simp only [reversesRegisters, Bool.or_eq_true, Bool.and_eq_true, beq_iff_eq] at h
  rcases h with ⟨h1, h2⟩ | ⟨h1, h2⟩ <;> rw [fieldSize, h1, h2] <;> rfl

end Row

namespace Layout

variable (l : Layout)

/-- In their encoded order, the operands of a layout hold its field. -/
theorem encodeField_encodedOperands :
    (l.row.encodedOperands l.context l.field).reverse.flatMap (Operand.encodeField l.opcode)
      = l.field := by
  obtain ⟨hfirst, hsecond⟩ := Row.fits_entry l.opcode l.modRM.reg
  have hsize := l.field_size
  rw [Row.fieldSize] at hsize
  have htake : (l.field.take l.row.first.size).length = l.row.first.size := by
    rw [List.length_take]
    omega
  have hdrop : (l.field.drop l.row.first.size).length = l.row.second.size := by
    rw [List.length_drop]
    omega
  rw [Row.encodedOperands, List.reverse_append, List.flatMap_append,
    Pattern.encodeField_operandsOf l.context htake hfirst,
    Pattern.encodeField_operandsOf l.context hdrop hsecond]
  rcases Row.size_entry l.opcode l.modRM.reg with hzero | hzero
  · rw [show l.row.first.size = 0 from hzero]
    simp
  · have hall : l.row.first.size = l.field.length := by
      rw [hsize, show l.row.second.size = 0 from hzero, Nat.add_zero]
    rw [hall, List.drop_length, List.take_length, List.nil_append]

/-- The encoder gives back the field of a layout. -/
theorem encodeField_instruction : l.instruction.encodeField = l.field := by
  have hfield := l.encodeField_encodedOperands
  show (l.row.operandsOf l.context l.field).reverse.flatMap _ = _
  unfold Row.operandsOf
  by_cases hreverse : (l.row.reversesRegisters && !l.context.modRM.isMemory) = true
  · have hempty : l.field = [] := by
      rw [← List.length_eq_zero_iff, l.field_size]
      exact Row.fieldSize_of_reversesRegisters (Bool.and_eq_true_iff.mp hreverse).1
    rw [hempty, List.flatMap_eq_nil_iff] at hfield
    rw [if_pos hreverse, List.reverse_reverse, hempty, List.flatMap_eq_nil_iff]
    exact fun operand hmem => hfield operand (List.mem_reverse.mpr hmem)
  · rw [if_neg hreverse]
    exact hfield

/-- A layout is a run of prefixes and the encoding of its instruction. -/
theorem bytes_eq_run_append_encode : l.bytes = l.run ++ l.instruction.encode := by
  rw [Instruction.encode, l.encodeHead_instruction, l.encodeField_instruction]
  simp [bytes, Heading.bytes, Opening.bytes, instruction]

end Layout

-- ======================================================= the statement

/-- The encoding of an instruction starts with its opcode, which is no
prefix. -/
theorem dropWhile_run_append_encode (l : Layout) :
    l.bytes.dropWhile Prefix.isByte = l.instruction.encode := by
  have hopening := l.toOpening.dropWhile_append (l.head ++ l.field)
  rw [Instruction.encode, l.encodeHead_instruction, l.encodeField_instruction]
  rw [← List.append_assoc] at hopening
  exact hopening

/-- The prefixes in front of a layout are its run. -/
theorem takeWhile_bytes_append (l : Layout) (rest : List UInt8) :
    (l.bytes ++ rest).takeWhile Prefix.isByte = l.run := by
  have hopening := l.toOpening.takeWhile_append (l.head ++ l.field ++ rest)
  rw [← List.append_assoc, ← List.append_assoc] at hopening
  exact hopening

/-- Decoded bytes are a run of prefixes and the encoding of what they
decode to. So bytes that decode to the same instruction agree behind
their prefixes, and have equally many of them. -/
theorem decodeNext_determines_encoding {bytes : List UInt8} {i : Instruction}
    (h : decodeNext bytes = .ok i) :
    i.length ≤ bytes.length
      ∧ bytes.take i.length = bytes.takeWhile Prefix.isByte ++ i.encode
      ∧ ∀ others : List UInt8, decodeNext others = .ok i →
          (others.takeWhile Prefix.isByte).length = (bytes.takeWhile Prefix.isByte).length
            ∧ (others.take i.length).dropWhile Prefix.isByte
              = (bytes.take i.length).dropWhile Prefix.isByte := by
  obtain ⟨l, rest, rfl, rfl⟩ := decodeNext_eq_ok_iff.mp h
  have hlength : l.instruction.length = l.bytes.length := rfl
  refine ⟨?_, ?_, fun others hothers => ?_⟩
  · rw [hlength, List.length_append]
    omega
  · rw [hlength, List.take_left, takeWhile_bytes_append, l.bytes_eq_run_append_encode]
  · obtain ⟨l', rest', rfl, hsame⟩ := decodeNext_eq_ok_iff.mp hothers
    have hlength' : l.instruction.length = l'.bytes.length := by rw [← hsame]; rfl
    have hruns := congrArg List.length l.bytes_eq_run_append_encode
    have hruns' := congrArg List.length l'.bytes_eq_run_append_encode
    rw [hsame, List.length_append] at hruns'
    rw [List.length_append] at hruns
    refine ⟨?_, ?_⟩
    · rw [takeWhile_bytes_append, takeWhile_bytes_append]
      omega
    · rw [hlength, List.take_left, ← hlength, hlength', List.take_left,
        dropWhile_run_append_encode, dropWhile_run_append_encode, hsame]

/-- Two orders of the same prefixes, in front of an addition of a
sign-extended byte to a word in memory. -/
theorem decodeNext_determines_encoding_of_swapped_prefixes :
    ∃ i, decodeNext [0x26, 0xF3, 0x83, 0x46, 0xFE, 0x80, 0x90] = .ok i
      ∧ decodeNext [0xF3, 0x26, 0x83, 0x46, 0xFE, 0x80] = .ok i
      ∧ [0x26, 0xF3, 0x83, 0x46, 0xFE, 0x80] = [0x26, 0xF3] ++ i.encode := by
  have h : decodeNext [0x26, 0xF3, 0x83, 0x46, 0xFE, 0x80, 0x90] = .ok
      { opcode := 0x83, length := 6, mnemonic := .ADD, width := .word
        operands := [.memory ⟨.bp, .byte (-2), some .ES, .word⟩, .immediate ⟨-128, .word, .plain⟩]
        prefixes := ⟨0x204⟩ } := by decide +kernel
  exact ⟨_, h, by decide +kernel, (decodeNext_determines_encoding h).2.1⟩

end Disasm8086
