/-
Where branches go. A relative branch carries a distance in its last bytes
and counts from the first byte behind itself, which is where the walk
stands that has just yielded it. So its target is that position and the
distance, up to whole turns of the segment, however long the instruction
is; a run of prefixes may make it longer than a segment. The opcodes whose
instructions have a target are written down here, and no other
instruction has one (`jumpTarget_of_call`).

# The argument

An item of a walk is a layout (`Disassembler.exists_layout_of_call`), and
a layout ends in its field. By one traversal of the opcode map, the field
of a relative branch is its distance, which is the only operand, and no
other opcode has an operand of this role. What is left is arithmetic:
offset, length and distance are each cut to a word before they are added,
and this makes no difference to the sum.
-/
import Disasm8086.Proofs.OperandKind
import Disasm8086.Proofs.Partition
import Mathlib.Data.Nat.Digits.Defs

namespace Disasm8086

open Reader

-- =========================================================== statement

namespace Opcode

/-- The opcodes of branches that are told how far to go. -/
def isRelativeBranch (op : UInt8) : Bool :=
  (0x70 ≤ op && op ≤ 0x7F) || (0xE0 ≤ op && op ≤ 0xE3) || op == 0xE8 || op == 0xE9 || op == 0xEB

/-- How many bytes such a branch has for its distance. -/
def distanceSize (op : UInt8) : Nat := if op = 0xE8 ∨ op = 0xE9 then 2 else 1

end Opcode

/-- Bytes as a number in two's complement, the least significant first. -/
def signedNumber (bytes : List UInt8) : Int :=
  Int.bmod (Nat.ofDigits 256 (bytes.map UInt8.toNat) : Nat) (256 ^ bytes.length)

/-- The distance in the last bytes of a branch. -/
def Disassembly.distance (d : Disassembly) : Int :=
  signedNumber (d.bytes.drop (d.bytes.length - Opcode.distanceSize d.instruction.opcode))

-- ============================================================= numbers

/-- A byte, extended by its sign, is the signed number of one byte. -/
theorem toInt_toInt16_byteOf {field : List UInt8} (h : field.length = 1) :
    (byteOf field).toInt8.toInt16.toInt = signedNumber field := by
  obtain ⟨b, rfl⟩ := List.length_eq_one_iff.mp h
  have hbyte : b.toInt8.toInt = Int.bmod b.toNat (2 ^ 8) := BitVec.toInt_eq_toNat_bmod b.toBitVec
  rw [Int8.toInt_toInt16, signedNumber, List.map_singleton, Nat.ofDigits_singleton]
  exact hbyte

/-- A word is the number of its two bytes, the low one first. -/
theorem toNat_wordOf {field : List UInt8} (h : field.length = 2) :
    (wordOf field).toNat = Nat.ofDigits 256 (field.map UInt8.toNat) := by
  obtain ⟨low, high, rfl⟩ : ∃ low high, field = [low, high] := by
    match field, h with
    | [low, high], _ => exact ⟨low, high, rfl⟩
  have hlow := low.toNat_lt
  have hhigh := high.toNat_lt
  have hdigits : Nat.ofDigits 256 ([low, high].map UInt8.toNat) = low.toNat + 256 * high.toNat := by
    simp [Nat.ofDigits_cons]
  rw [hdigits, wordOf, List.getD_cons_zero, List.getD_cons_succ, List.getD_cons_zero,
    littleEndian, UInt16.toNat_ofNat']
  omega

/-- Read as signed, a word is the signed number of its two bytes. -/
theorem toInt_toInt16_wordOf {field : List UInt8} (h : field.length = 2) :
    (wordOf field).toInt16.toInt = signedNumber field := by
  have hsigned : (wordOf field).toInt16.toInt = Int.bmod (wordOf field).toNat (2 ^ 16) :=
    BitVec.toInt_eq_toNat_bmod (wordOf field).toBitVec
  have hpow : 256 ^ field.length = 2 ^ 16 := by
    rw [h]
    norm_num
  rw [hsigned, toNat_wordOf h, signedNumber, hpow]

/-- Cutting the summands to words does not change where the sum leads. -/
theorem toNat_add_toUInt16 (offset length : Nat) (distance : Int16) :
    ((UInt16.ofNat offset + UInt16.ofNat length + distance.toUInt16).toNat : Int)
      = (offset + length + distance.toInt) % 65536 := by
  have hturn : distance.toInt % 65536 = distance.toUInt16.toNat := by
    have hlt := distance.toUInt16.toNat_lt
    have hsigned : distance.toInt = Int.bmod distance.toUInt16.toNat (2 ^ 16) :=
      BitVec.toInt_eq_toNat_bmod distance.toBitVec
    rw [hsigned]
    exact Int.bmod_emod.trans (Int.emod_eq_of_lt (by omega) (by omega))
  rw [UInt16.toNat_add, UInt16.toNat_add, UInt16.toNat_ofNat', UInt16.toNat_ofNat']
  omega

-- ============================================================ operands

/-- Whether an operand of this kind is a distance. -/
def Operand.Kind.isRelative : Kind → Bool
  | .immediate role _ => role == .relative
  | _ => false

theorem Instruction.jumpTarget?_eq_none {i : Instruction}
    (h : ∀ operand ∈ i.operands, operand.kind.isRelative = false) (address : UInt16) :
    i.jumpTarget? address = none := by
  rw [jumpTarget?, List.findSome?_eq_none_iff]
  intro operand hoperand
  have hkind := h operand hoperand
  cases operand with
  | register | memory => rfl
  | immediate c =>
      have hrelative : c.isRelative = false := hkind
      simp [hrelative]

/-- A distance that stands alone leads to the target. -/
theorem Instruction.jumpTarget?_of_relative {i : Instruction} {c : Immediate}
    (hoperands : i.operands = [.immediate c]) (hrelative : c.isRelative = true)
    (address : UInt16) :
    i.jumpTarget? address = some (address + UInt16.ofNat i.length + c.value.toUInt16) := by
  rw [jumpTarget?, hoperands, List.findSome?_singleton]
  simp [hrelative]

/-- The only operand of a row has the whole field. -/
theorem Row.operandsOf_of_unary {row : Row} (h : row.second = .none) (ctx : OperandContext)
    {field : List UInt8} (hsize : field.length = row.fieldSize) :
    row.operandsOf ctx field = row.first.operandsOf ctx field := by
  have hplain : row.reversesRegisters = false := by
    rw [reversesRegisters, h]
    simp
  have htake : field.take row.first.size = field := by
    rw [fieldSize, h] at hsize
    exact List.take_of_length_le (Nat.le_of_eq hsize)
  rw [operandsOf, hplain, Bool.false_and, if_neg Bool.false_ne_true, encodedOperands, h, htake]
  exact List.append_nil _

namespace Layout

variable (l : Layout)

/-- Opcodes other than those of the relative branches take no distance. -/
theorem jumpTarget?_eq_none (h : Opcode.isRelativeBranch l.opcode = false) (address : UInt16) :
    l.instruction.jumpTarget? address = none := by
  have hkinds := l.kinds_law (fun op _ kinds => (kinds.all fun kind => !kind.isRelative) ||
    Opcode.isRelativeBranch op) (by decide +kernel)
  rw [h, Bool.or_false] at hkinds
  apply Instruction.jumpTarget?_eq_none
  intro operand hoperand
  have hkind := List.all_eq_true.mp hkinds operand.kind (List.mem_map_of_mem hoperand)
  simpa using hkind

/-- The field of a relative branch is its distance, and the distance is
its only operand. -/
theorem exists_distance (h : Opcode.isRelativeBranch l.opcode = true) :
    l.field.length = Opcode.distanceSize l.opcode ∧ ∃ c : Immediate,
      l.instruction.operands = [.immediate c] ∧ c.isRelative = true
        ∧ c.value.toInt = signedNumber l.field := by
  have hlaw := l.row_law (fun op row => !Opcode.isRelativeBranch op ||
    (decide (row.first = if Opcode.distanceSize op = 2 then .rel16 else .rel8) &&
      decide (row.second = .none))) (by decide +kernel)
  simp only [h, Bool.not_true, Bool.false_or, Bool.and_eq_true, decide_eq_true_eq] at hlaw
  obtain ⟨hfirst, hsecond⟩ := hlaw
  have hsize := l.field_size
  have hoperands : l.instruction.operands = l.row.first.operandsOf l.context l.field :=
    Row.operandsOf_of_unary hsecond l.context hsize
  rw [Row.fieldSize, hsecond] at hsize
  unfold Opcode.distanceSize at hfirst ⊢
  by_cases hlong : l.opcode = 0xE8 ∨ l.opcode = 0xE9
  · rw [if_pos hlong] at hfirst ⊢
    rw [hfirst] at hsize hoperands
    exact ⟨hsize, _, hoperands, rfl, toInt_toInt16_wordOf hsize⟩
  · rw [if_neg hlong] at hfirst ⊢
    rw [hfirst] at hsize hoperands
    exact ⟨hsize, _, hoperands, rfl, toInt_toInt16_byteOf hsize⟩

/-- The distance comes last. -/
theorem distance_eq (h : Opcode.isRelativeBranch l.opcode = true) (offset : Nat) :
    Disassembly.distance ⟨offset, l.bytes, l.instruction⟩ = signedNumber l.field := by
  have hsize : Opcode.distanceSize l.instruction.opcode = l.field.length :=
    (l.exists_distance h).1.symm
  rw [Disassembly.distance, hsize, bytes, List.length_append, Nat.add_sub_cancel, List.drop_left]

/-- A branch leads from its end over the distance in its last field, round
the end of the segment. -/
theorem jumpTarget?_of_relative (h : Opcode.isRelativeBranch l.opcode = true) (offset : Nat) :
    ∃ target, l.instruction.jumpTarget? (UInt16.ofNat offset) = some target
      ∧ (target.toNat : Int) = (offset + l.bytes.length + signedNumber l.field) % 65536 := by
  obtain ⟨-, c, hoperands, hrelative, hvalue⟩ := l.exists_distance h
  refine ⟨_, Instruction.jumpTarget?_of_relative hoperands hrelative _, ?_⟩
  rw [toNat_add_toUInt16, hvalue]
  rfl

end Layout

-- =============================================================== walks

namespace Disassembler

/-- What a call yields is a layout, and the walk then stands at its end. -/
theorem exists_layout_of_call {d : Disassembler} (hfailed : d.failed = false) {n : Nat}
    {item : Disassembly} (h : d.call n = some (.ok item)) :
    ∃ l : Layout, item = ⟨item.offset, l.bytes, l.instruction⟩
      ∧ (d.after (n + 1)).offset = item.offset + item.bytes.length := by
  obtain ⟨found, failure, hpartition⟩ := d.exists_partitions hfailed
  have hfound : found[n]? = some item := by
    rw [hpartition.calls n, List.getElem?_append] at h
    split at h
    · simpa using h
    · -- behind the instructions there are errors only
      have herror := List.mem_of_getElem? h
      simp at herror
  obtain ⟨hlength, -, halone⟩ := hpartition.alone item (List.mem_of_getElem? hfound)
  obtain ⟨l, rest, hbytes, hinstruction⟩ := decodeNext_eq_ok_iff.mp halone
  have hrest : rest = [] := by
    have hsize : l.instruction.length = l.bytes.length := rfl
    rw [← hinstruction, hsize, hbytes, List.length_append] at hlength
    exact List.length_eq_zero_iff.mp (by omega)
  rw [hrest, List.append_nil] at hbytes
  refine ⟨l, ?_, hpartition.stands n item hfound⟩
  rw [← hbytes, hinstruction]

end Disassembler

/-- Of the instructions that a walk yields, the relative branches and no
others have a target, and it lies as far from where the walk then stands
as the last bytes of the instruction say, in a segment of 2^16 bytes. -/
theorem jumpTarget_of_call (bytes : List UInt8) (n : Nat) (d : Disassembly)
    (h : (Disassembler.ofBytes bytes).call n = some (.ok d)) :
    ((d.instruction.jumpTarget? (UInt16.ofNat d.offset)).isSome = true
        ↔ Opcode.isRelativeBranch d.instruction.opcode = true)
      ∧ ∀ target, d.instruction.jumpTarget? (UInt16.ofNat d.offset) = some target →
        (target.toNat : Int)
          = (((Disassembler.ofBytes bytes).after (n + 1)).offset + d.distance) % 65536 := by
  obtain ⟨l, hd, hoffset⟩ := Disassembler.exists_layout_of_call rfl h
  have hbytes : d.bytes = l.bytes := by rw [hd]
  have hinstruction : d.instruction = l.instruction := by rw [hd]
  have hopcode : d.instruction.opcode = l.opcode := congrArg Instruction.opcode hinstruction
  rw [hopcode, hinstruction, hoffset, hbytes]
  cases hbranch : Opcode.isRelativeBranch l.opcode with
  | false =>
      rw [l.jumpTarget?_eq_none hbranch]
      simp
  | true =>
      obtain ⟨target, htarget, hvalue⟩ := l.jumpTarget?_of_relative hbranch d.offset
      have hdistance : d.distance = signedNumber l.field := by
        rw [hd]
        exact l.distance_eq hbranch d.offset
      rw [htarget]
      refine ⟨by simp, ?_⟩
      rintro _ ⟨⟩
      rw [hvalue, hdistance]
      push_cast
      rfl

/-- A short jump is yielded together with the prefixes in front of it. -/
theorem Disassembler.exists_call_of_short_jump {run : List UInt8}
    (hrun : ∀ b ∈ run, Prefix.isByte b = true) (distance : UInt8) : ∃ d : Disassembly,
      (ofBytes (run ++ [0xEB, distance])).call 0 = some (.ok d)
        ∧ d.offset = 0 ∧ d.bytes = run ++ [0xEB] ++ [distance] ∧ d.instruction.opcode = 0xEB := by
  have hplain : (Row.ofOpcode 0xEB).hasModRM = false := by decide +kernel
  have hassigned : (Row.ofOpcode 0xEB).mnemonic ≠ .invalid := by decide +kernel
  have haccepted : (Row.ofOpcode 0xEB).accepts ⟨0⟩ = true := by decide +kernel
  have hfield : 1 = (Row.ofOpcode 0xEB).fieldSize := by decide +kernel
  let l : Layout := .plain ⟨run, 0xEB, hrun, rfl⟩ hplain [distance] hassigned haccepted hfield
  have hbytes : l.bytes = run ++ [0xEB, distance] := l.bytes_eq
  have hnext : (ofBytes (run ++ [0xEB, distance])).next = _ :=
    next_of_layout rfl l (hbytes.symm.trans (List.append_nil _).symm)
  refine ⟨⟨0, l.bytes, l.instruction⟩, congrArg Prod.fst hnext, rfl, ?_, rfl⟩
  rw [List.append_assoc]
  exact hbytes

/-- A jump by five behind more prefixes than a segment has bytes: the walk
stands at 70002, and the target is 70007 less one segment. -/
theorem jumpTarget_of_call_of_long_run : ∃ d : Disassembly,
    (Disassembler.ofBytes (List.replicate 70000 0x2E ++ [0xEB, 0x05])).call 0 = some (.ok d)
      ∧ d.bytes.length = 70002 ∧ d.distance = 5
      ∧ d.instruction.jumpTarget? (UInt16.ofNat d.offset) = some 4471 := by
  have hrun : ∀ b ∈ List.replicate 70000 (0x2E : UInt8), Prefix.isByte b = true := by
    intro b hb
    rw [List.eq_of_mem_replicate hb]
    rfl
  obtain ⟨d, hcall, hoffset, hbytes, hopcode⟩ :=
    Disassembler.exists_call_of_short_jump hrun 0x05
  have hsize : d.bytes.length = 70002 := by
    rw [hbytes, List.length_append, List.length_append, List.length_replicate,
      List.length_singleton, List.length_singleton]
  have hdistance : d.distance = 5 := by
    have hlast : d.bytes.drop (d.bytes.length - 1) = [0x05] := by
      rw [hbytes, List.length_append, List.length_singleton, Nat.add_sub_cancel, List.drop_left]
    have hone : Opcode.distanceSize 0xEB = 1 := by decide
    rw [Disassembly.distance, hopcode, hone, hlast]
    decide
  obtain ⟨-, -, hstands⟩ := Disassembler.exists_layout_of_call rfl hcall
  obtain ⟨hiff, hvalue⟩ := jumpTarget_of_call _ 0 d hcall
  have hbranch : Opcode.isRelativeBranch d.instruction.opcode = true := by
    rw [hopcode]
    decide
  obtain ⟨target, htarget⟩ := Option.isSome_iff_exists.mp (hiff.mpr hbranch)
  have hnumber := hvalue target htarget
  rw [hstands, hoffset, hsize, hdistance] at hnumber
  have hexpected : (4471 : UInt16).toNat = 4471 := by decide
  refine ⟨d, hcall, hsize, hdistance, ?_⟩
  rw [htarget, Option.some.injEq, ← UInt16.toNat_inj, hexpected]
  omega

end Disasm8086
