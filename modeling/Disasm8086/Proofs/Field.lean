/-
Readers of a fixed number of bytes. Behind the opcode an instruction is
a sequence of such fields: the displacement, whose size the ModRM byte
gives, and the immediate bytes, whose size the operand patterns give.

A fixed reader (`Reader.Fixed`) is known once its size and its value on
exactly that many bytes are: more bytes behind the field do not matter,
and with fewer it reports the end of the stream. Sequences of fixed
readers are fixed (`fixed_bind`), so the operand patterns of a row
are settled by one lemma a pattern and one for the row.

# What is proved here

- `ModRM.fixed_readDisplacement`: the displacement is a field.
- `Pattern.fixed_resolve`, `Pattern.resolve_of_rejects`: an operand
  pattern is a field if the ModRM byte suits it, and a fault otherwise.
- `Row.fixed_operands`, `Row.operands_of_rejects`: the same of a row.
-/
import Disasm8086.Cursor

namespace Disasm8086

-- ====================================================== fixed readers

namespace Reader

variable {α β : Type}

/-- Behind a reader that succeeds, the next one goes on with its value. -/
theorem bind_of_ok {r : Reader α} (f : α → Reader β) {feed next : Feed} {a : α}
    (h : r feed = .ok a next) : (r >>= f) feed = f a next := by
  show EStateM.bind r f feed = _
  rw [EStateM.bind, h]

/-- Behind a reader that fails, nothing more is read. -/
theorem bind_of_error {r : Reader α} (f : α → Reader β) {feed next : Feed} {fault : Fault}
    (h : r feed = .error fault next) : (r >>= f) feed = .error fault next := by
  show EStateM.bind r f feed = _
  rw [EStateM.bind, h]

/-- The reader takes exactly `size` bytes and makes `value` of them. It
fails only where fewer are ahead, and then leaves at most one of them. -/
structure Fixed (r : Reader α) (size : Nat) (value : List UInt8 → α) : Prop where
  ok : ∀ (field rest : List UInt8) (n : Nat), field.length = size →
    r ⟨field ++ rest, n⟩ = .ok (value field) ⟨rest, n + size⟩
  short : ∀ (bytes : List UInt8) (n : Nat), bytes.length < size →
    ∃ next, r ⟨bytes, n⟩ = .error (.endOfStream none) next ∧ next.rest.length ≤ 1

/-- The first byte of a field. -/
def byteOf (field : List UInt8) : UInt8 := field.getD 0 0

/-- The first word of a field. -/
def wordOf (field : List UInt8) : UInt16 := littleEndian (field.getD 0 0) (field.getD 1 0)

theorem fixed_pure (a : α) : Fixed (pure a) 0 fun _ => a where
  ok field rest n h := by
    rw [List.length_eq_zero_iff.mp h]
    rfl
  short bytes n h := absurd h (Nat.not_lt_zero _)

theorem fixed_byte : Fixed byte 1 byteOf where
  ok field rest n h := by
    obtain ⟨b, rfl⟩ := List.length_eq_one_iff.mp h
    rfl
  short bytes n h := by
    rw [List.length_eq_zero_iff.mp (Nat.lt_one_iff.mp h)]
    exact ⟨_, rfl, Nat.zero_le 1⟩

theorem fixed_word : Fixed word 2 wordOf where
  ok field rest n h := by
    match field, h with
    | [low, high], _ => rfl
  short bytes n h := by
    match bytes with
    | [] => exact ⟨_, rfl, Nat.zero_le 1⟩
    | [b] => exact ⟨_, rfl, Nat.le_refl 1⟩
    | _ :: _ :: _ =>
        simp only [List.length_cons] at h
        omega

/-- Only the value on a field of the right size matters. -/
theorem Fixed.congr {r : Reader α} {size : Nat} {v w : List UInt8 → α}
    (hr : Fixed r size v) (h : ∀ field, field.length = size → v field = w field) :
    Fixed r size w where
  ok field rest n hsize := by
    rw [hr.ok field rest n hsize, h field hsize]
  short := hr.short

/-- What is left of a field behind its first part is its last part. -/
theorem take_drop_eq_drop {field : List UInt8} {m k : Nat} (h : field.length = m + k) :
    (field.drop m).take k = field.drop m := by
  refine List.take_of_length_le ?_
  rw [List.length_drop]
  omega

/-- One field behind another is one field. -/
theorem fixed_bind {r : Reader α} {f : α → Reader β} {m k : Nat}
    {v : List UInt8 → α} {w : α → List UInt8 → β}
    (hr : Fixed r m v) (hf : ∀ a, Fixed (f a) k (w a)) :
    Fixed (r >>= f) (m + k) fun field => w (v (field.take m)) (field.drop m) where
  ok field rest n h := by
    have htake : (field.take m).length = m := by
      rw [List.length_take]
      omega
    have hdrop : (field.drop m).length = k := by
      rw [List.length_drop]
      omega
    have hsplit : field ++ rest = field.take m ++ (field.drop m ++ rest) := by
      rw [← List.append_assoc, List.take_append_drop]
    rw [hsplit, bind_of_ok f (hr.ok _ _ _ htake), (hf _).ok _ _ _ hdrop, Nat.add_assoc]
  short bytes n h := by
    -- the bytes are too few for the first reader, or what it leaves for the second
    by_cases hm : bytes.length < m
    · obtain ⟨next, hnext, hle⟩ := hr.short bytes n hm
      exact ⟨next, bind_of_error f hnext, hle⟩
    · have htake : (bytes.take m).length = m := by
        rw [List.length_take]
        omega
      have hdrop : (bytes.drop m).length < k := by
        rw [List.length_drop]
        omega
      obtain ⟨next, hnext, hle⟩ :=
        (hf (v (bytes.take m))).short (bytes.drop m) (n + m) hdrop
      have hok := hr.ok (bytes.take m) (bytes.drop m) n htake
      rw [List.take_append_drop] at hok
      exact ⟨next, (bind_of_ok f hok).trans hnext, hle⟩

/-- A field of which something else is made keeps its size. -/
theorem fixed_map {r : Reader α} {size : Nat} {v : List UInt8 → α} (f : α → β)
    (hr : Fixed r size v) : Fixed (f <$> r) size fun field => f (v field) where
  ok field rest n h := by
    rw [← bind_pure_comp]
    exact bind_of_ok _ (hr.ok field rest n h)
  short bytes n h := by
    obtain ⟨next, hnext, hle⟩ := hr.short bytes n h
    rw [← bind_pure_comp]
    exact ⟨next, bind_of_error _ hnext, hle⟩

end Reader

open Reader

/-- Sign extension keeps the low byte. -/
theorem toUInt8_toInt16 (b : UInt8) : b.toInt8.toInt16.toUInt16.toUInt8 = b := by
  refine UInt8.toBitVec_inj.mp ?_
  show (b.toBitVec.signExtend 16).setWidth 8 = b.toBitVec
  ext k hk
  rw [BitVec.getElem_setWidth, BitVec.getLsbD_signExtend, if_pos hk,
    BitVec.getLsbD_eq_getElem hk]
  simp only [Bool.and_eq_right_iff_imp, decide_eq_true_eq]
  omega

-- ====================================================== displacements

namespace ModRM

/-- How many bytes of displacement follow. -/
def displacementSize (m : ModRM) : Nat :=
  match m.displacementWidth with
  | .none => 0
  | .byte => 1
  | .word => 2

/-- The displacement that a field of that size encodes. -/
def displacementOf (m : ModRM) (field : List UInt8) : Displacement :=
  match m.displacementWidth with
  | .none => .none
  | .byte => .byte (byteOf field).toInt8
  | .word => .word (wordOf field).toInt16

/-- Once the ModRM byte is known, the displacement is a field. -/
theorem fixed_readDisplacement (m : ModRM) :
    Fixed m.readDisplacement m.displacementSize m.displacementOf := by
  unfold readDisplacement displacementSize displacementOf
  cases m.displacementWidth with
  | none => exact fixed_pure _
  | byte => exact fixed_map _ (fixed_map _ fixed_byte)
  | word => exact fixed_map _ (fixed_map _ fixed_word)

theorem isMemory_eq (m : ModRM) : m.isMemory = !(m.mod.val == 3) := by
  unfold isMemory
  generalize m.mod = mod
  revert mod
  decide

end ModRM

-- =========================================================== patterns

namespace Pattern

/-- How many bytes of its own an operand takes, behind the opcode, the
ModRM byte and the displacement. -/
def size : Pattern → Nat
  | .imm8 | .imm8Extended | .imm8Unsigned | .rel8 => 1
  | .imm16 | .imm16Unsigned | .rel16 | .offset8 | .offset16 => 2
  | .farPointer => 4
  | _ => 0

/-- Whether the operation can take the operand that a ModRM byte selects. -/
def accepts (m : ModRM) : Pattern → Bool
  | .mem => m.isMemory
  | .segment => m.segment?.isSome
  | .segmentTarget => m.segment?.any (· != .CS)
  | _ => true

/-- The operands that a pattern stands for, given the bytes of its own. -/
def operandsOf (ctx : OperandContext) (field : List UInt8) : Pattern → List Operand
  | .none => []
  | .rm8 => [ctx.rmOperand .byte]
  | .rm16 | .mem => [ctx.rmOperand .word]
  | .reg8 => [.register (ctx.modRM.regRegister .byte)]
  | .reg16 => [.register (ctx.modRM.regRegister .word)]
  | .segment | .segmentTarget =>
    ctx.modRM.segment?.toList.map fun s => .register s.register
  | .imm8 => [.immediate (.byte (byteOf field))]
  | .imm16 => [.immediate (.word (wordOf field))]
  | .imm8Extended => [.immediate (.signExtended (byteOf field).toInt8)]
  | .imm8Unsigned => [.immediate ((Immediate.byte (byteOf field)).withRole .unsigned)]
  | .imm16Unsigned => [.immediate ((Immediate.word (wordOf field)).withRole .unsigned)]
  | .rel8 => [.immediate (.relativeByte (byteOf field).toInt8)]
  | .rel16 => [.immediate (.relativeWord (wordOf field).toInt16)]
  | .offset8 => [ctx.directOperand .byte (wordOf field)]
  | .offset16 => [ctx.directOperand .word (wordOf field)]
  | .fixed r => [.register r]
  | .implied value => [.immediate (.byte value)]
  | .farPointer =>
    [.immediate ((Immediate.word (wordOf (field.drop 2))).withRole .farSegment),
     .immediate ((Immediate.word (wordOf (field.take 2))).withRole .farOffset)]
  | .external => [.immediate ((Immediate.byte ctx.externalOpcode).withRole .unsigned)]

end Pattern

namespace OperandContext

/-- In memory form there is a memory operand of every size. -/
theorem exists_memory (ctx : OperandContext) (size : Width)
    (h : ctx.modRM.isMemory = true) :
    ∃ m, ctx.memory? size = some m ∧ m.size = size ∧ m.override = ctx.override := by
  have hmod : ¬ ctx.modRM.mod = 3 := by simpa [ModRM.isMemory] using h
  unfold memory? ModRM.memory? ModRM.mode?
  rw [if_neg hmod]
  by_cases hdirect : ctx.modRM.mod = 0 ∧ ctx.modRM.rm = 6
  · rw [if_pos hdirect]
    exact ⟨_, rfl, rfl, rfl⟩
  · rw [if_neg hdirect]
    exact ⟨_, rfl, rfl, rfl⟩

theorem memory?_eq_none (ctx : OperandContext) (size : Width)
    (h : ctx.modRM.isMemory = false) : ctx.memory? size = none := by
  have hmod : ctx.modRM.mod = 3 := by simpa [ModRM.isMemory] using h
  unfold memory? ModRM.memory? ModRM.mode?
  rw [if_pos hmod]
  rfl

/-- In the register form, the r/m field names the operand. -/
theorem rmOperand_of_register (ctx : OperandContext) (size : Width)
    (h : ctx.modRM.isMemory = false) :
    ctx.rmOperand size = .register (ctx.modRM.rmRegister size) := by
  rw [rmOperand, ctx.memory?_eq_none size h]

/-- The r/m operand is a memory operand or a register, as the form says. -/
theorem rmOperand_cases (ctx : OperandContext) (size : Width) :
    (ctx.modRM.isMemory = true ∧ ∃ m, ctx.rmOperand size = .memory m ∧ m.size = size
        ∧ m.override = ctx.override)
      ∨ (ctx.modRM.isMemory = false
        ∧ ctx.rmOperand size = .register (ctx.modRM.rmRegister size)) := by
  cases hform : ctx.modRM.isMemory with
  | true =>
      obtain ⟨m, hm, hsize⟩ := ctx.exists_memory size hform
      exact Or.inl ⟨rfl, m, by rw [rmOperand, hm], hsize⟩
  | false => exact Or.inr ⟨rfl, ctx.rmOperand_of_register size hform⟩

end OperandContext

namespace Pattern

/-- A pattern that suits the ModRM byte reads a field. -/
theorem fixed_resolve (ctx : OperandContext) (p : Pattern)
    (h : p.accepts ctx.modRM = true) :
    Fixed (p.resolve ctx) p.size fun field => p.operandsOf ctx field := by
  cases p with
  | mem =>
      obtain ⟨m, hm, -⟩ := ctx.exists_memory .word h
      simp only [resolve, operandsOf, OperandContext.rmOperand, hm]
      exact fixed_pure _
  | segment =>
      obtain ⟨s, hs⟩ := Option.isSome_iff_exists.mp h
      simp only [resolve, operandsOf, hs]
      exact fixed_pure _
  | segmentTarget =>
      obtain ⟨s, hs, hne⟩ := (Option.any_eq_true ..).mp h
      simp only [resolve, operandsOf, hs]
      cases s with
      | CS => simp at hne
      | ES | SS | DS => exact fixed_pure _
  | farPointer =>
      have hwords := fixed_bind fixed_word fun offset =>
        fixed_bind fixed_word fun segment => fixed_pure
          [Operand.immediate ((Immediate.word segment).withRole .farSegment),
            .immediate ((Immediate.word offset).withRole .farOffset)]
      refine Fixed.congr hwords fun field hsize => ?_
      rw [take_drop_eq_drop (k := 2) hsize]
      rfl
  | imm8 | imm8Unsigned => exact fixed_map _ fixed_byte
  | imm16 | imm16Unsigned | offset8 | offset16 => exact fixed_map _ fixed_word
  | imm8Extended | rel8 => exact fixed_map _ (fixed_map _ fixed_byte)
  | rel16 => exact fixed_map _ (fixed_map _ fixed_word)
  | none | rm8 | rm16 | reg8 | reg16 | fixed | implied | external => exact fixed_pure _

/-- A pattern that does not suit the ModRM byte is a fault, whatever
follows. -/
theorem resolve_of_rejects (ctx : OperandContext) (p : Pattern) (feed : Feed)
    (h : p.accepts ctx.modRM = false) :
    p.resolve ctx feed = .error ctx.invalid feed := by
  cases p with
  | mem =>
      simp only [resolve, ctx.memory?_eq_none .word h]
      rfl
  | segment =>
      have hs : ctx.modRM.segment? = .none := by simpa [accepts] using h
      simp only [resolve, hs]
      rfl
  | segmentTarget =>
      simp only [accepts, Option.any_eq_false, bne_eq_false_iff_eq] at h
      simp only [resolve]
      cases hs : ctx.modRM.segment? with
      | none => rfl
      | some s =>
          rw [h s hs]
          rfl
  | _ => cases h

end Pattern

-- =============================================================== rows

namespace Row

/-- How many bytes the operands take behind the ModRM byte and the
displacement. -/
def fieldSize (row : Row) : Nat := row.first.size + row.second.size

/-- Whether the operation can take what a ModRM byte selects. -/
def accepts (row : Row) (m : ModRM) : Bool := row.first.accepts m && row.second.accepts m

/-- The operands in the order in which they are encoded. -/
def encodedOperands (row : Row) (ctx : OperandContext) (field : List UInt8) : List Operand :=
  row.first.operandsOf ctx (field.take row.first.size) ++
    row.second.operandsOf ctx (field.drop row.first.size)

/-- The operands in the order in which they are listed. -/
def operandsOf (row : Row) (ctx : OperandContext) (field : List UInt8) : List Operand :=
  if row.reversesRegisters && !ctx.modRM.isMemory then
    (row.encodedOperands ctx field).reverse
  else row.encodedOperands ctx field

/-- In memory form the operands are listed as they are encoded. -/
theorem operandsOf_of_memory {row : Row} {ctx : OperandContext} (h : ctx.modRM.isMemory = true)
    (field : List UInt8) : row.operandsOf ctx field = row.encodedOperands ctx field := by
  rw [operandsOf, h, Bool.not_true, Bool.and_false]
  rfl

/-- A row that suits the ModRM byte reads one field. -/
theorem fixed_operands (row : Row) (ctx : OperandContext)
    (h : row.accepts ctx.modRM = true) :
    Fixed (row.operands ctx) row.fieldSize fun field => row.operandsOf ctx field := by
  rw [accepts, Bool.and_eq_true] at h
  have hlisted := fun first : List Operand =>
    fixed_bind (row.second.fixed_resolve ctx h.2) fun second => fixed_pure
      (if row.reversesRegisters && !ctx.modRM.isMemory then (first ++ second).reverse
        else first ++ second)
  refine (fixed_bind (row.first.fixed_resolve ctx h.1) hlisted).congr fun field hsize => ?_
  rw [operandsOf, encodedOperands, take_drop_eq_drop (k := row.second.size) hsize]

/-- A row that does not suit the ModRM byte is a fault, provided that the
second operand is only ever refused before any byte is taken. -/
theorem operands_of_rejects (row : Row) (ctx : OperandContext) (feed : Feed)
    (hfirst : row.second.accepts ctx.modRM = false → row.first.size = 0)
    (h : row.accepts ctx.modRM = false) :
    row.operands ctx feed = .error ctx.invalid feed := by
  unfold operands
  by_cases hone : row.first.accepts ctx.modRM = true
  · have htwo : row.second.accepts ctx.modRM = false := by simpa [accepts, hone] using h
    have hok := (row.first.fixed_resolve ctx hone).ok [] feed.rest feed.taken
      (hfirst htwo).symm
    rw [hfirst htwo] at hok
    exact (bind_of_ok _ hok).trans
      (bind_of_error _ (row.second.resolve_of_rejects ctx feed htwo))
  · exact bind_of_error _ (row.first.resolve_of_rejects ctx feed (by simpa using hone))

end Row

end Disasm8086
