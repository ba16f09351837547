/-
Decoding does not depend on the place. A cursor that stands behind some
bytes finds what a cursor at the start of the bytes ahead finds: the same
instruction, or the same fault at an offset that is further by the bytes
in front. Both move equally far, also where they fail.

A cursor hands only the bytes ahead to a reader, so for cursors this is a
matter of where positions enter: into the offset of an error and into the
position behind. For the checked decoder it is not. That decoder takes
every byte out of the whole buffer, by its position, and tells from a
difference of positions how long an instruction is.

# The argument

Two runs of the checked decoder are compared, one over the bytes alone and
one over the same bytes behind others, each position of the second being
that of the first and as many more as there are bytes in front. What one
step does in the two is the same up to this distance (`Relocates`), for
each byte that is read and each difference that is taken; and steps for
which this holds may follow each other. The counter is the same in both
runs, so they would even leave its 32 bits at the same byte, and no bound
on the length of the buffer is needed.
-/
import Disasm8086.Proofs.Checked

namespace Disasm8086

-- ============================================================= cursors

namespace Cursor

/-- The same place in the same bytes, behind others. -/
def relocate (before : List UInt8) (c : Cursor) : Cursor where
  buffer := before ++ c.buffer
  position := before.length + c.position
  rest := c.rest
  position_le := by
    rw [List.length_append]
    exact Nat.add_le_add_left c.position_le _
  rest_eq := by rw [← List.drop_drop, List.drop_left, c.rest_eq]

/-- What is found behind other bytes: an error lies further on, and so does
the cursor that is left. -/
def relocated {α : Type} (before : List UInt8) (found : Except DecodeError α × Cursor) :
    Except DecodeError α × Cursor :=
  (found.1.mapError (·.shift before.length), found.2.relocate before)

section Moving

variable (before : List UInt8) (c : Cursor)

/-- Moving ahead and moving behind other bytes do not interfere. -/
theorem relocate_advance {n : Nat} (h : n ≤ c.remaining) :
    (c.relocate before).advance n h = (c.advance n h).relocate before :=
  eq_of_position rfl (Nat.add_assoc _ _ _)

/-- A reader has only the bytes ahead, so a place enters where an error is
reported and where the cursor is left. -/
theorem read_relocate {α : Type} (r : Reader α) [Reader.Advances r] :
    (c.relocate before).read r = relocated before (c.read r) := by
  cases hread : r (.ofBytes c.rest) with
  | ok a feed =>
      rw [read_of_ok hread, read_of_ok (c := c.relocate before) hread]
      exact congrArg (Prod.mk _) (relocate_advance before c _)
  | error fault feed =>
      have hoffset : (c.relocate before).position + feed.taken
          = c.position + feed.taken + before.length := by
        simp only [relocate]
        omega
      rw [read_of_error hread, read_of_error (c := c.relocate before) hread, hoffset]
      exact congrArg (Prod.mk _) (relocate_advance before c _)

/-- And so it is with instructions. -/
theorem decode_relocate : (c.relocate before).decode = relocated before c.decode := by
  have hoffset : (c.relocate before).position = c.position + before.length := Nat.add_comm _ _
  unfold decode
  rw [read_relocate, hoffset]
  obtain ⟨found, next⟩ := c.read Instruction.read
  cases found with
  | ok i => rfl
  | error e => rfl

end Moving

/-- A cursor behind some bytes is one at the start of those ahead, moved
there. -/
theorem eq_relocate {c : Cursor} {before bytes : List UInt8}
    (hbuffer : c.buffer = before ++ bytes) (hposition : c.position = before.length) :
    c = (ofBytes bytes).relocate before :=
  eq_of_position hbuffer hposition

end Cursor

-- =============================================================== steps

namespace Checked

variable {α β : Type} {n : Nat}

/-- The same progress, `n` bytes further on. The count is kept. -/
def Progress.relocate (n : Nat) (p : Progress) : Progress :=
  { p with position := n + p.position }

/-- A result of which the position is further by `n`. -/
def relocate (n : Nat) : EStateM.Result Stop Progress α → EStateM.Result Stop Progress α
  | .ok a p => .ok a (p.relocate n)
  | .error stop p => .error stop (p.relocate n)

/-- From positions `n` apart, the two steps end in the same way at positions
`n` apart. -/
def Relocates (n : Nat) (s t : Step α) : Prop :=
  ∀ p : Progress, t (p.relocate n) = relocate n (s p)

/-- The rule of sequence. -/
theorem Relocates.bind {s t : Step α} {f g : α → Step β} (hs : Relocates n s t)
    (hf : ∀ a, Relocates n (f a) (g a)) : Relocates n (s >>= f) (t >>= g) := by
  intro p
  show EStateM.bind t g (p.relocate n) = relocate n (EStateM.bind s f p)
  unfold EStateM.bind
  rw [hs p]
  cases s p with
  | ok a q => exact hf a q
  | error stop q => rfl

/-- Where nothing is done, the distance stays. -/
theorem relocates_pure (a : α) : Relocates n (pure a) (pure a) := fun _ => rfl

/-- To stop is to stop at either place. -/
theorem relocates_throw (stop : Stop) : Relocates n (throw stop : Step α) (throw stop) :=
  fun _ => rfl

/-- What is made of a value does not depend on the place. -/
theorem Relocates.map {s t : Step α} (f : α → β) (hs : Relocates n s t) :
    Relocates n (f <$> s) (f <$> t) := by
  rw [← bind_pure_comp, ← bind_pure_comp]
  exact hs.bind fun a => relocates_pure (f a)

/-- Nor does the opcode that is named. -/
theorem Relocates.naming {s t : Step α} (opcode : UInt8) (hs : Relocates n s t) :
    Relocates n (naming opcode s) (naming opcode t) := by
  intro p
  unfold Checked.naming
  rw [hs p]
  cases s p with
  | ok a q => rfl
  | error stop q => cases stop <;> rfl

/-- The counter has nothing to do with positions. -/
theorem relocates_count (k : Nat) : Relocates n (count k) (count k) := by
  intro p
  unfold count Progress.relocate
  split <;> rfl

/-- Nor has the opcode map. -/
theorem relocates_rowAt (index : Nat) : Relocates n (rowAt index) (rowAt index) := by
  unfold rowAt
  split
  · exact relocates_pure _
  · exact relocates_throw _

/-- Nor have operands. -/
theorem relocates_exchange (listed : List Operand) :
    Relocates n (exchange listed) (exchange listed) := by
  unfold exchange
  split
  · exact relocates_pure _
  · exact relocates_throw _

/-- A difference of given numbers is the same at either place. -/
theorem relocates_difference (a b : Nat) : Relocates n (difference a b) (difference a b) := by
  unfold difference
  split
  · exact relocates_throw _
  · exact relocates_pure _

/-- Numbers that both grow by `n` keep their difference. -/
theorem difference_add_left (n a b : Nat) : difference (n + a) (n + b) = difference a b := by
  unfold difference
  rw [Nat.add_sub_add_left]
  simp only [Nat.add_lt_add_iff_left]

/-- The bytes taken are a difference of two positions, which are moved
alike. -/
theorem relocates_measured (start : Nat) : Relocates n (measured start) (measured (n + start)) := by
  intro p
  show (difference (n + p.position) (n + start) >>= _) (p.relocate n)
    = relocate n ((difference p.position start >>= _) p)
  rw [difference_add_left]
  apply (relocates_difference _ _).bind
  intro taken
  show Relocates n (if taken = p.size then _ else _) (if taken = p.size then _ else _)
  split
  · exact relocates_pure _
  · exact relocates_throw _

-- ============================================================= reading

section Reading

variable (before bytes : List UInt8)

/-- A place behind the bytes in front is a place in the others. -/
theorem getElem?_append_length_add (index : Nat) :
    (before ++ bytes)[before.length + index]? = bytes[index]? := by
  rw [List.getElem?_append_right (Nat.le_add_right _ _), Nat.add_sub_cancel_left]

theorem relocates_byteAt (index : Nat) :
    Relocates n (byteAt bytes index) (byteAt (before ++ bytes) (before.length + index)) := by
  unfold byteAt
  rw [getElem?_append_length_add]
  split
  · exact relocates_pure _
  · exact relocates_throw _

/-- The byte at the position is the same. -/
theorem relocates_byte : Relocates before.length (byte bytes) (byte (before ++ bytes)) := by
  intro p
  unfold byte
  simp only [Progress.relocate, getElem?_append_length_add]
  split <;> rfl

/-- What remains is a difference of a length and a position, and both have
grown. -/
theorem relocates_word : Relocates before.length (word bytes) (word (before ++ bytes)) := by
  intro p
  show (difference (before ++ bytes).length (before.length + p.position) >>= _) (p.relocate _)
    = relocate _ ((difference bytes.length p.position >>= _) p)
  rw [List.length_append, difference_add_left]
  apply (relocates_difference _ _).bind
  intro remaining
  split
  · exact relocates_throw _
  · apply (relocates_byteAt before bytes p.position).bind
    intro low
    apply (relocates_byteAt before bytes (p.position + 1)).bind
    intro high
    exact fun q => rfl

/-- The loop over the prefixes, round by round. -/
theorem relocates_readOpcode (prefixes : Prefixes) :
    Relocates before.length (readOpcode bytes prefixes)
      (readOpcode (before ++ bytes) prefixes) := by
  intro p
  have hget : ∀ q : Progress, (before ++ bytes)[(q.relocate before.length).position]?
      = bytes[q.position]? := fun q => getElem?_append_length_add before bytes q.position
  -- the cases are the ends of a round: no byte, a prefix, the opcode, or no room to count it
  induction prefixes, p using readOpcode.induct bytes with
  | case1 prefixes p hnone =>
      rw [readOpcode, readOpcode, hget, hnone]
      rfl
  | case2 prefixes p b hbyte hroom found hprefix ih =>
      have hroom' : (p.relocate before.length).size + 1 < UInt32.size := hroom
      rw [readOpcode, readOpcode, hget, hbyte]
      simp only [if_pos hroom, if_pos hroom', hprefix]
      exact ih
  | case3 prefixes p b hbyte hroom hprefix =>
      have hroom' : (p.relocate before.length).size + 1 < UInt32.size := hroom
      rw [readOpcode, readOpcode, hget, hbyte]
      simp only [if_pos hroom, if_pos hroom', hprefix]
      rfl
  | case4 prefixes p b hbyte hfull =>
      have hfull' : ¬(p.relocate before.length).size + 1 < UInt32.size := hfull
      rw [readOpcode, readOpcode, hget, hbyte]
      simp only [if_neg hfull, if_neg hfull']
      rfl

theorem relocates_readDisplacement (m : ModRM) :
    Relocates before.length (readDisplacement bytes m) (readDisplacement (before ++ bytes) m) := by
  unfold readDisplacement
  cases m.displacementWidth with
  | none => exact relocates_pure _
  | byte => exact ((relocates_byte before bytes).map _).map _
  | word => exact ((relocates_word before bytes).map _).map _

/-- A ModRM byte is read alike, and counted alike. -/
theorem relocates_readModRM :
    Relocates before.length (readModRM bytes) (readModRM (before ++ bytes)) := by
  apply (relocates_byte before bytes).bind
  intro b
  apply (relocates_readDisplacement before bytes ⟨b⟩).bind
  intro displacement
  exact (relocates_count _).bind fun _ => relocates_pure _

theorem relocates_readModRMOf (row : Row) :
    Relocates before.length (readModRMOf bytes row) (readModRMOf (before ++ bytes) row) := by
  unfold readModRMOf
  split
  · exact relocates_readModRM before bytes
  · exact relocates_pure _

theorem relocates_counted {s t : Step α} (k : Nat) (hs : Relocates n s t) :
    Relocates n (counted k s) (counted k t) :=
  (relocates_count k).bind fun _ => hs

/-- Every operand is resolved alike. -/
theorem relocates_resolve (ctx : OperandContext) (pattern : Pattern) :
    Relocates before.length (resolve bytes ctx pattern)
      (resolve (before ++ bytes) ctx pattern) := by
  have hbyte := relocates_byte before bytes
  have hword := relocates_word before bytes
  cases pattern with
  | none | rm8 | rm16 | reg8 | reg16 | fixed | implied | external => exact relocates_pure _
  | mem =>
      unfold resolve
      cases ctx.memory? .word with
      | none => exact relocates_throw _
      | some m => exact relocates_pure _
  | segment =>
      unfold resolve
      cases ctx.modRM.segment? with
      | none => exact relocates_throw _
      | some s => exact relocates_pure _
  | segmentTarget =>
      unfold resolve
      cases ctx.modRM.segment? with
      | none => exact relocates_throw _
      | some s =>
          cases s with
          | CS => exact relocates_throw _
          | ES | SS | DS => exact relocates_pure _
  | imm8 | imm8Unsigned => exact relocates_counted 1 (hbyte.map _)
  | imm16 | imm16Unsigned | offset8 | offset16 => exact relocates_counted 2 (hword.map _)
  | imm8Extended | rel8 => exact relocates_counted 1 ((hbyte.map _).map _)
  | rel16 => exact relocates_counted 2 ((hword.map _).map _)
  | farPointer =>
      exact hword.bind fun _ => hword.bind fun _ =>
        (relocates_count 4).bind fun _ => relocates_pure _

theorem relocates_operands (row : Row) (ctx : OperandContext) :
    Relocates before.length (operands bytes row ctx) (operands (before ++ bytes) row ctx) := by
  apply (relocates_resolve before bytes ctx row.first).bind
  intro first
  apply (relocates_resolve before bytes ctx row.second).bind
  intro second
  split
  · exact relocates_exchange _
  · exact relocates_pure _

/-- The row is the same, whether the ModRM byte is needed for it or not. -/
theorem relocates_selectRow (opcode : UInt8) :
    Relocates before.length (selectRow bytes opcode) (selectRow (before ++ bytes) opcode) := by
  apply (relocates_rowAt _).bind
  intro row
  split
  · exact relocates_pure _
  · exact (relocates_readModRM before bytes).bind fun _ => (relocates_difference _ _).bind fun _ =>
      (relocates_rowAt _).bind fun _ => relocates_pure _

variable (start : Nat) (prefixes : Prefixes) (opcode : UInt8)

/-- An instruction is completed with the same length. -/
theorem relocates_complete (row : Row) (head : ModRM × Displacement) :
    Relocates before.length (complete bytes start prefixes opcode row head)
      (complete (before ++ bytes) (before.length + start) prefixes opcode row head) :=
  (relocates_operands before bytes row _).bind fun _ =>
    (relocates_measured start).bind fun _ => relocates_pure _

theorem relocates_readBody :
    Relocates before.length (readBody bytes start prefixes opcode)
      (readBody (before ++ bytes) (before.length + start) prefixes opcode) := by
  apply (relocates_selectRow before bytes opcode).bind
  rintro ⟨row, loaded⟩
  by_cases hrow : row.mnemonic = .invalid
  · simp only [if_pos hrow]
    exact relocates_throw _
  · simp only [if_neg hrow]
    cases loaded with
    | some head => exact relocates_complete before bytes start prefixes opcode row head
    | none =>
        exact (relocates_readModRMOf before bytes row).bind fun head =>
          relocates_complete before bytes start prefixes opcode row head

/-- Decoding as a whole. -/
theorem relocates_read :
    Relocates before.length (read bytes start) (read (before ++ bytes) (before.length + start)) :=
  (relocates_readOpcode before bytes .empty).bind fun found =>
    (relocates_readBody before bytes start found.1 found.2).naming found.2

/-- The checked decoder finds the same behind other bytes, errors and
positions further on, and it meets a defect there only if it meets the
same one without them. -/
theorem decode_append :
    decode (before ++ bytes) (before.length + start)
      = (decode bytes start).map fun found =>
          (found.1.mapError (·.shift before.length), before.length + found.2) := by
  have hread := relocates_read before bytes start ⟨start, 0⟩
  unfold decode
  rw [show Progress.mk (before.length + start) 0
    = (Progress.mk start 0).relocate before.length from rfl, hread]
  cases read bytes start ⟨start, 0⟩ with
  | ok i p => rfl
  | error stop p =>
      cases stop with
      | defect defect => rfl
      | fault fault =>
          simp only [relocate]
          rw [Nat.add_comm before.length start]
          rfl

end Reading

end Checked

-- =========================================================== statement

/-- Decoding does not depend on the place. Behind other bytes a cursor finds
the instruction, the ModRM byte and the displacement that a cursor at the
start finds, or the same fault; the offsets of errors and the positions
behind are further by the number of bytes in front. So are those of the
checked decoder. -/
theorem decode_position_independent (before bytes : List UInt8) {c : Cursor}
    (hbuffer : c.buffer = before ++ bytes) (hposition : c.position = before.length) :
    c.decode = Cursor.relocated before (Cursor.ofBytes bytes).decode
      ∧ c.read ModRM.read = Cursor.relocated before ((Cursor.ofBytes bytes).read ModRM.read)
      ∧ (∀ m : ModRM, c.read m.readDisplacement
          = Cursor.relocated before ((Cursor.ofBytes bytes).read m.readDisplacement))
      ∧ Checked.decode c.buffer c.position
        = (Checked.decode bytes 0).map fun found =>
            (found.1.mapError (·.shift before.length), before.length + found.2) := by
  have hchecked := Checked.decode_append before bytes 0
  rw [Nat.add_zero, ← hbuffer, ← hposition] at hchecked
  obtain rfl := Cursor.eq_relocate hbuffer hposition
  exact ⟨Cursor.decode_relocate before _, Cursor.read_relocate before _ _,
    fun _ => Cursor.read_relocate before _ _, hchecked⟩

/-- A test of which the constant is cut, behind another instruction, and a
move between registers there. -/
theorem decode_position_independent_of_test_and_move :
    let test := Cursor.ofBytes [0x90, 0x26, 0xF7, 0x87, 0x34, 0x12, 0xCD]
    let move := Cursor.ofBytes [0x90, 0x2E, 0x8B, 0xC3]
    (test.advance 1 (by decide)).decode
        = (.error ⟨1, .endOfStream (some 0xF7)⟩, test.advance 6 (by decide))
      ∧ Checked.decode test.buffer 1 = .ok (.error ⟨1, .endOfStream (some 0xF7)⟩, 6)
      ∧ ∃ i : Instruction, i.length = 3
        ∧ (Cursor.ofBytes [0x2E, 0x8B, 0xC3]).decode.1 = .ok i
        ∧ (move.advance 1 (by decide)).decode = (.ok i, move.advance 4 (by decide)) := by
  intro test move
  have htest : (Cursor.ofBytes [0x26, 0xF7, 0x87, 0x34, 0x12, 0xCD]).decode
      = (.error ⟨0, .endOfStream (some 0xF7)⟩,
        (Cursor.ofBytes [0x26, 0xF7, 0x87, 0x34, 0x12, 0xCD]).advance 5 (by decide)) := by
    decide +kernel
  have hmove : (Cursor.ofBytes [0x2E, 0x8B, 0xC3]).decode = (.ok
      { opcode := 0x8B, length := 3, mnemonic := .MOV, width := .word
        operands := [.register .BX, .register .AX], prefixes := ⟨0x008⟩ },
      (Cursor.ofBytes [0x2E, 0x8B, 0xC3]).advance 3 (by decide)) := by
    decide +kernel
  have hchecked : Checked.decode [0x26, 0xF7, 0x87, 0x34, 0x12, 0xCD] 0
      = .ok (.error ⟨0, .endOfStream (some 0xF7)⟩, 5) := by
    have hexact := Checked.decode_eq (.ofBytes [0x26, 0xF7, 0x87, 0x34, 0x12, 0xCD]) (by decide)
    rw [htest] at hexact
    exact hexact
  obtain ⟨hfailed, -, -, hbehind⟩ := decode_position_independent [0x90]
    [0x26, 0xF7, 0x87, 0x34, 0x12, 0xCD] (c := test.advance 1 (by decide)) rfl rfl
  obtain ⟨hmoved, -⟩ := decode_position_independent [0x90] [0x2E, 0x8B, 0xC3]
    (c := move.advance 1 (by decide)) rfl rfl
  rw [htest] at hfailed
  rw [hmove] at hmoved
  rw [hchecked] at hbehind
  exact ⟨hfailed, hbehind, _, rfl, by rw [hmove], hmoved⟩

end Disasm8086
