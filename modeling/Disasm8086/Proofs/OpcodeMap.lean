/-
The opcode map by numbers. The map itself is a table of rows; here its
regularities are stated as predicates on the opcode byte and, for the
opcodes that stand for a group, on the middle field of the ModRM byte:
which opcodes have a ModRM byte, which stand for nothing, which operands
they refuse, and how many immediate bytes they carry.

Each law is one traversal of the map (`Row.every`), decided by
computation and then read off at a single opcode (`Row.every_entry`).
The laws are what the encoder and the grammar of instructions rest on:
they never look at a row.
-/
import Disasm8086.Proofs.Field

namespace Disasm8086

-- ====================================================== traversing it

namespace Row

/-- The row that an opcode and the middle field of a ModRM byte settle
on. The middle field matters for groups only. -/
def entry (opcode : UInt8) (extension : Fin 8) : Row :=
  match (ofOpcode opcode).group with
  | none => ofOpcode opcode
  | some group => group.row extension

/-- Whether every entry of the map passes a test. -/
def every (test : UInt8 → Fin 8 → Row → Bool) : Bool :=
  opcodes.zipIdx.all fun numbered => (List.finRange 8).all fun extension =>
    test (UInt8.ofNat numbered.2) extension <|
      match numbered.1.group with
      | none => numbered.1
      | some group => group.row extension

/-- What holds of every entry holds of the one at an opcode. -/
theorem every_entry (test : UInt8 → Fin 8 → Row → Bool) (h : every test = true)
    (opcode : UInt8) (extension : Fin 8) :
    test opcode extension (entry opcode extension) = true := by
  have hlt : opcode.toNat < opcodes.length := by
    rw [length_opcodes]
    exact opcode.toNat_lt
  have hmem : (ofOpcode opcode, opcode.toNat) ∈ opcodes.zipIdx := by
    rw [List.mem_zipIdx_iff_getElem?]
    exact List.getElem?_eq_getElem hlt
  have hrow := List.all_eq_true.mp h _ hmem
  have hentry := List.all_eq_true.mp hrow extension (List.mem_finRange extension)
  rw [UInt8.ofNat_toNat] at hentry
  exact hentry

end Row

-- ============================================================ numbers

namespace Opcode

/-- The opcodes to which no operation is assigned, whatever follows. -/
def isUnassigned (op : UInt8) : Bool :=
  op == 0x0F || (0x60 ≤ op && op ≤ 0x6F) || op == 0xC0 || op == 0xC1 ||
    op == 0xC8 || op == 0xC9 || op == 0xD6 || op == 0xF1

/-- The opcodes that a ModRM byte follows. -/
def takesModRM (op : UInt8) : Bool :=
  (op < 0x40 && op % 8 < 4) || (0x80 ≤ op && op ≤ 0x8F) || (0xC4 ≤ op && op ≤ 0xC7) ||
    (0xD0 ≤ op && op ≤ 0xD3) || (0xD8 ≤ op && op ≤ 0xDF) || op == 0xF6 || op == 0xF7 ||
    op == 0xFE || op == 0xFF

/-- The opcodes whose operation is picked by the middle field. -/
def isGroup (op : UInt8) : Bool :=
  (0x80 ≤ op && op ≤ 0x83) || op == 0x8F || op == 0xC6 || op == 0xC7 ||
    (0xD0 ≤ op && op ≤ 0xD3) || op == 0xF6 || op == 0xF7 || op == 0xFE || op == 0xFF

/-- The places of a group to which no operation is assigned. -/
def isHole (op : UInt8) (reg : Fin 8) : Bool :=
  ((op == 0x8F || op == 0xC6 || op == 0xC7) && reg.val != 0) ||
    (0xD0 ≤ op && op ≤ 0xD3 && reg.val == 6) ||
    ((op == 0xF6 || op == 0xF7) && reg.val == 1) ||
    (op == 0xFE && 2 ≤ reg.val) ||
    (op == 0xFF && reg.val == 7)

/-- The operands that an operation cannot take: registers where there is
no address to take, and segment registers that do not exist or cannot be
written. -/
def refuses (op : UInt8) (m : ModRM) : Bool :=
  (m.mod.val == 3 && (op == 0x8D || op == 0xC4 || op == 0xC5 ||
    (op == 0xFF && (m.reg.val == 3 || m.reg.val == 5)))) ||
    (op == 0x8C && 3 < m.reg.val) ||
    (op == 0x8E && (m.reg.val == 1 || 3 < m.reg.val))

/-- How many bytes of immediate, distance, offset or far pointer come
last. -/
def fieldSize (op : UInt8) (reg : Fin 8) : Nat :=
  if op < 0x40 then
    if op % 8 = 4 then 1 else if op % 8 = 5 then 2 else 0
  else if 0x70 ≤ op && op ≤ 0x7F then 1
  else if op = 0x80 ∨ op = 0x82 ∨ op = 0x83 then 1
  else if op = 0x81 then 2
  else if op = 0x9A ∨ op = 0xEA then 4
  else if 0xA0 ≤ op && op ≤ 0xA3 then 2
  else if op = 0xA8 then 1
  else if op = 0xA9 then 2
  else if 0xB0 ≤ op && op ≤ 0xB7 then 1
  else if 0xB8 ≤ op && op ≤ 0xBF then 2
  else if op = 0xC2 ∨ op = 0xC7 ∨ op = 0xCA then 2
  else if op = 0xC6 ∨ op = 0xCD ∨ op = 0xD4 ∨ op = 0xD5 then 1
  else if 0xE0 ≤ op && op ≤ 0xE7 then 1
  else if op = 0xE8 ∨ op = 0xE9 then 2
  else if op = 0xEB then 1
  else if op = 0xF6 ∧ reg.val = 0 then 1
  else if op = 0xF7 ∧ reg.val = 0 then 2
  else 0

end Opcode

-- =============================================================== laws

open Opcode

namespace Row

/-- Prefix bytes apart, the opcodes and group places without an operation
are the unassigned ones and the holes. -/
theorem mnemonic_entry_eq_invalid_iff {op : UInt8} (h : Prefix.isByte op = false)
    (reg : Fin 8) : (entry op reg).mnemonic = .invalid ↔
      isUnassigned op = true ∨ isHole op reg = true := by
  have hlaw := every_entry (fun op reg row => Prefix.isByte op ||
    decide (row.mnemonic = .invalid) == (isUnassigned op || isHole op reg))
    (by decide +kernel) op reg
  rw [h, Bool.false_or, beq_iff_eq] at hlaw
  rw [← Bool.or_eq_true, ← hlaw, decide_eq_true_iff]

/-- The first place of a group is taken, so it shows the ModRM byte. -/
theorem hasModRM_ofOpcode_eq_entry (op : UInt8) :
    (ofOpcode op).hasModRM = (entry op 0).hasModRM := by
  have hplace : ∀ g : Group, (g.row 0).hasModRM = true := by
    intro g
    cases g <;> decide +kernel
  unfold entry
  cases hgroup : (ofOpcode op).group with
  | none => rfl
  | some g =>
      rw [hasModRM, hgroup]
      exact (hplace g).symm

/-- The rows with a ModRM byte are those of the opcodes that take one. -/
theorem hasModRM_ofOpcode (op : UInt8) : (ofOpcode op).hasModRM = takesModRM op := by
  have hlaw := every_entry (fun op reg row =>
    reg != 0 || row.hasModRM == takesModRM op) (by decide +kernel) op 0
  rw [hasModRM_ofOpcode_eq_entry]
  simpa using hlaw

/-- The size of the last field, by numbers. -/
theorem fieldSize_entry {op : UInt8} {reg : Fin 8} (h : isHole op reg = false) :
    (entry op reg).fieldSize = Opcode.fieldSize op reg := by
  have hlaw := every_entry (fun op reg row => isHole op reg ||
    row.fieldSize == Opcode.fieldSize op reg) (by decide +kernel) op reg
  simpa [h] using hlaw

/-- An operand that can be refused never stands behind immediate bytes,
so what is refused does not depend on what follows the head. -/
theorem first_size_of_rejects {op : UInt8} {m : ModRM}
    (h : (entry op m.reg).second.accepts m = false) : (entry op m.reg).first.size = 0 := by
  have hlaw := every_entry (fun _ _ row => row.first.size == 0 || !row.second.usesModRM)
    (by decide +kernel) op m.reg
  rw [Bool.or_eq_true, beq_iff_eq, Bool.not_eq_true'] at hlaw
  refine hlaw.resolve_right fun hplain => ?_
  generalize (entry op m.reg).second = p at h hplain
  cases p <;> simp_all [Pattern.accepts, Pattern.usesModRM]

/-- Whether one of the two patterns is `p`. -/
def mentions (row : Row) (p : Pattern) : Bool :=
  decide (row.first = p) || decide (row.second = p)

/-- Only three patterns are ever refused. -/
theorem accepts_eq (row : Row) (m : ModRM) :
    row.accepts m = ((!row.mentions .mem || m.isMemory) &&
      (!row.mentions .segment || m.segment?.isSome) &&
      (!row.mentions .segmentTarget || m.segment?.any (· != .CS))) := by
  have hpattern : ∀ p : Pattern, p.accepts m = ((!decide (p = .mem) || m.isMemory) &&
      (!decide (p = .segment) || m.segment?.isSome) &&
      (!decide (p = .segmentTarget) || m.segment?.any (· != .CS))) := by
    intro p
    cases p <;> simp [Pattern.accepts]
  unfold accepts mentions
  rw [hpattern, hpattern]
  grind

/-- The operands that a row accepts, by numbers. -/
theorem accepts_entry (op : UInt8) (m : ModRM) :
    (entry op m.reg).accepts m = !refuses op m := by
  have hlaw := every_entry (fun op reg row =>
    (row.mentions .mem == (op == 0x8D || op == 0xC4 || op == 0xC5 ||
      (op == 0xFF && (reg.val == 3 || reg.val == 5)))) &&
    (row.mentions .segment == (op == 0x8C)) &&
    (row.mentions .segmentTarget == (op == 0x8E))) (by decide +kernel) op m.reg
  simp only [Bool.and_eq_true, beq_iff_eq] at hlaw
  obtain ⟨⟨hmem, hsegment⟩, htarget⟩ := hlaw
  have hsome : m.segment?.isSome = !decide (3 < m.reg.val) := by
    unfold ModRM.segment?
    generalize m.reg = reg
    revert reg
    decide
  have hany : m.segment?.any (· != .CS) = !(m.reg.val == 1 || decide (3 < m.reg.val)) := by
    unfold ModRM.segment?
    generalize m.reg = reg
    revert reg
    decide
  rw [accepts_eq, hmem, hsegment, htarget, m.isMemory_eq, hsome, hany, refuses]
  grind

end Row

end Disasm8086
