/-
How the bytes of an instruction are laid out: a run of prefixes, the
opcode, a head (ModRM byte and displacement, or nothing) and a field of
immediate bytes. A layout is such a division of bytes together with the
proofs that the parts have the sizes they ask for and that the operation
exists and can take its operands.

Layouts are exactly what the decoder accepts. One case analysis says
what reading can do (`reading_read`): it finds a layout, or it stops in
one of five ways. Everything about accepted bytes is then a statement
about layouts, and no later proof runs the decoder.

# What is proved here

- `Layout.read_append`: a layout is read back whatever follows it.
- `reading_read`: the six ways in which reading can end.
- `decodeNext_eq_ok_iff`: bytes decode to an instruction exactly if they
  start with a layout of it.
-/
import Disasm8086.Proofs.OpcodeMap
import Mathlib.Data.List.TakeWhile

namespace Disasm8086

open Reader

-- =============================================================== head

namespace Row

/-- The ModRM byte at the start of a head. No head reads as zero, which
asks for no displacement. -/
def modRMOf (head : List UInt8) : ModRM := ⟨byteOf head⟩

/-- How many bytes ModRM byte and displacement take, given what follows
the opcode. -/
def headSize (row : Row) (bytes : List UInt8) : Nat :=
  if row.hasModRM then 1 + (modRMOf bytes).displacementSize else 0

/-- The displacement in a head. -/
def displacementOf (head : List UInt8) : Displacement :=
  (modRMOf head).displacementOf (head.drop 1)

/-- The size of a head shows in the head alone. -/
theorem headSize_take (row : Row) (bytes : List UInt8) :
    row.headSize (bytes.take (row.headSize bytes)) = row.headSize bytes := by
  by_cases hmodRM : row.hasModRM = true
  · have hfirst : modRMOf (bytes.take (row.headSize bytes)) = modRMOf bytes := by
      rw [headSize, if_pos hmodRM, Nat.add_comm]
      cases bytes <;> rfl
    unfold headSize at hfirst ⊢
    rw [hfirst]
  · simp [headSize, hmodRM]

/-- A head of the right size is read, whatever follows. -/
theorem readModRM_append (row : Row) (head rest : List UInt8) (n : Nat)
    (h : head.length = row.headSize head) :
    row.readModRM ⟨head ++ rest, n⟩
      = .ok (modRMOf head, displacementOf head) ⟨rest, n + head.length⟩ := by
  unfold headSize at h
  unfold readModRM
  by_cases hmodRM : row.hasModRM = true
  · rw [if_pos hmodRM] at h ⊢
    match head, h with
    | b :: field, h =>
        have hsize : field.length = (ModRM.mk b).displacementSize := by
          rw [List.length_cons, Nat.add_comm] at h
          exact Nat.add_left_cancel h
        have hfield := (ModRM.fixed_readDisplacement ⟨b⟩).ok field rest (n + 1) hsize
        refine (bind_of_ok _ (fixed_byte.ok [b] (field ++ rest) n rfl)).trans ?_
        refine (bind_of_ok _ hfield).trans ?_
        rw [List.length_cons, hsize, Nat.add_assoc, Nat.add_comm 1]
        rfl
  · rw [if_neg hmodRM] at h ⊢
    rw [List.length_eq_zero_iff.mp h]
    rfl

/-- A head that is too short is not, and at most one byte of it is left. -/
theorem readModRM_of_short (row : Row) (bytes : List UInt8) (n : Nat)
    (h : bytes.length < row.headSize bytes) :
    ∃ next, row.readModRM ⟨bytes, n⟩ = .error (.endOfStream none) next
      ∧ next.rest.length ≤ 1 := by
  unfold headSize at h
  unfold readModRM
  by_cases hmodRM : row.hasModRM = true
  · rw [if_pos hmodRM] at h ⊢
    match bytes, h with
    | [], _ => exact ⟨_, rfl, Nat.zero_le 1⟩
    | b :: field, h =>
        have hshort : field.length < (ModRM.mk b).displacementSize := by
          rw [List.length_cons, Nat.add_comm] at h
          exact Nat.lt_of_add_lt_add_left h
        obtain ⟨next, hnext, hle⟩ :=
          (ModRM.fixed_readDisplacement ⟨b⟩).short field (n + 1) hshort
        refine ⟨next, ?_, hle⟩
        exact (bind_of_ok _ (fixed_byte.ok [b] field n rfl)).trans (bind_of_error _ hnext)
  · rw [if_neg hmodRM] at h
    exact absurd h (Nat.not_lt_zero _)

end Row

-- ============================================================ layouts

/-- A run of prefixes and the opcode behind it. -/
structure Opening where
  run : List UInt8
  opcode : UInt8
  run_prefix : ∀ b ∈ run, Prefix.isByte b = true
  opcode_ne_prefix : Prefix.isByte opcode = false

/-- An opening and the head that its opcode asks for. -/
structure Heading extends Opening where
  head : List UInt8
  head_size : head.length = (Row.ofOpcode opcode).headSize head

namespace Opening

/-- The bytes of an opening. -/
def bytes (o : Opening) : List UInt8 := o.run ++ [o.opcode]

end Opening

namespace Heading

/-- The bytes of a heading. -/
def bytes (h : Heading) : List UInt8 := h.toOpening.bytes ++ h.head

/-- The ModRM byte, or a byte of zeros where there is none. -/
def modRM (h : Heading) : ModRM := Row.modRMOf h.head

/-- The row of the opcode map that the opcode and the head settle on. -/
def row (h : Heading) : Row := (Row.ofOpcode h.opcode).select h.modRM

theorem row_eq_entry (h : Heading) : h.row = Row.entry h.opcode h.modRM.reg := rfl

/-- The prefixes that the run stands for. -/
def prefixes (h : Heading) : Prefixes := .ofRun h.run

/-- What the operands are made from, immediate bytes apart. -/
def context (h : Heading) : OperandContext where
  opcode := h.opcode
  modRM := h.modRM
  displacement := Row.displacementOf h.head
  override := h.prefixes.segment?

/-- The heading of an opcode that no ModRM byte follows. -/
def plain (o : Opening) (h : (Row.ofOpcode o.opcode).hasModRM = false) : Heading where
  toOpening := o
  head := []
  head_size := by simp [Row.headSize, h]

/-- The heading of an opcode with a ModRM byte and its displacement. -/
def withModRM (o : Opening) (h : (Row.ofOpcode o.opcode).hasModRM = true) (m : ModRM)
    (displacement : List UInt8) (hsize : displacement.length = m.displacementSize) : Heading where
  toOpening := o
  head := m.byte :: displacement
  head_size := by
    rw [Row.headSize, if_pos h, List.length_cons, hsize, Nat.add_comm]
    rfl

theorem context_withModRM (o : Opening) (h : (Row.ofOpcode o.opcode).hasModRM = true) (m : ModRM)
    (displacement : List UInt8) (hsize : displacement.length = m.displacementSize) :
    (withModRM o h m displacement hsize).context
      = ⟨o.opcode, m, m.displacementOf displacement, (Prefixes.ofRun o.run).segment?⟩ := rfl

/-- Without a ModRM byte the opcode alone settles the row. -/
theorem row_plain (o : Opening) (h : (Row.ofOpcode o.opcode).hasModRM = false) :
    (plain o h).row = Row.ofOpcode o.opcode := by
  have hgroup : (Row.ofOpcode o.opcode).group = none := by
    simp only [Row.hasModRM, Bool.or_eq_false_iff] at h
    simpa using h.1.1
  show Row.select (Row.ofOpcode o.opcode) _ = _
  rw [Row.select, hgroup]

end Heading

/-- A heading and the field that its row asks for, where the row has an
operation that can take its operands. -/
structure Layout extends Heading where
  field : List UInt8
  assigned : toHeading.row.mnemonic ≠ .invalid
  accepted : toHeading.row.accepts toHeading.modRM = true
  field_size : field.length = toHeading.row.fieldSize

namespace Layout

/-- The bytes of a layout. -/
def bytes (l : Layout) : List UInt8 := l.toHeading.bytes ++ l.field

theorem bytes_eq (l : Layout) : l.bytes = l.run ++ l.opcode :: (l.head ++ l.field) := by
  simp [bytes, Heading.bytes, Opening.bytes]

theorem length_bytes_pos (l : Layout) : 1 ≤ l.bytes.length := by
  simp only [bytes, Heading.bytes, Opening.bytes, List.length_append, List.length_singleton]
  omega

/-- The instruction that is laid out. -/
def instruction (l : Layout) : Instruction where
  opcode := l.opcode
  length := l.bytes.length
  mnemonic := l.row.mnemonic
  width := l.row.width
  operands := l.row.operandsOf l.context l.field
  prefixes := l.prefixes

/-- The layout of an opcode that no ModRM byte follows. -/
def plain (o : Opening) (h : (Row.ofOpcode o.opcode).hasModRM = false) (field : List UInt8)
    (hassigned : (Row.ofOpcode o.opcode).mnemonic ≠ .invalid)
    (haccepted : (Row.ofOpcode o.opcode).accepts ⟨0⟩ = true)
    (hfield : field.length = (Row.ofOpcode o.opcode).fieldSize) : Layout where
  toHeading := .plain o h
  field := field
  assigned := by rwa [Heading.row_plain]
  accepted := by rwa [Heading.row_plain]
  field_size := by rwa [Heading.row_plain]

/-- The layout of an opcode with a ModRM byte and its displacement. -/
def withModRM (o : Opening) (h : (Row.ofOpcode o.opcode).hasModRM = true) (m : ModRM)
    (displacement : List UInt8) (hsize : displacement.length = m.displacementSize)
    (field : List UInt8) (hassigned : (Row.entry o.opcode m.reg).mnemonic ≠ .invalid)
    (haccepted : (Row.entry o.opcode m.reg).accepts m = true)
    (hfield : field.length = (Row.entry o.opcode m.reg).fieldSize) : Layout where
  toHeading := .withModRM o h m displacement hsize
  field := field
  assigned := hassigned
  accepted := haccepted
  field_size := hfield

end Layout

-- ============================================================ reading

/-- Prefixes alone make no instruction. -/
theorem read_run {run : List UInt8} (hrun : ∀ b ∈ run, Prefix.isByte b = true) :
    Instruction.read (.ofBytes run) = .error (.endOfStream none) ⟨[], run.length⟩ := by
  have htake : run.takeWhile Prefix.isByte = run := List.takeWhile_eq_self_iff.mpr hrun
  have hdrop : run.dropWhile Prefix.isByte = [] := List.dropWhile_eq_nil_iff.mpr hrun
  have hprefixes : Reader.run Prefix.isByte (.ofBytes run) = .ok run ⟨[], run.length⟩ := by
    simp [Reader.run, Feed.ofBytes, htake, hdrop]
  exact (bind_of_ok _ hprefixes).trans (bind_of_error _ rfl)

namespace Opening

variable (o : Opening)

/-- The run is the longest run of prefixes at the start. -/
theorem takeWhile_append (tail : List UInt8) :
    (o.bytes ++ tail).takeWhile Prefix.isByte = o.run := by
  rw [bytes, List.append_assoc, List.takeWhile_append_of_pos o.run_prefix,
    List.singleton_append, List.takeWhile_cons_of_neg (by simp [o.opcode_ne_prefix]),
    List.append_nil]

theorem dropWhile_append (tail : List UInt8) :
    (o.bytes ++ tail).dropWhile Prefix.isByte = o.opcode :: tail := by
  rw [bytes, List.append_assoc, List.dropWhile_append_of_pos o.run_prefix,
    List.singleton_append, List.dropWhile_cons_of_neg (by simp [o.opcode_ne_prefix])]

/-- What is read behind an opening is the body. -/
theorem read_append (tail : List UInt8) :
    Instruction.read (.ofBytes (o.bytes ++ tail))
      = Reader.naming o.opcode (Instruction.readBody (.ofRun o.run) o.opcode)
          ⟨tail, o.bytes.length⟩ := by
  have hprefixes : Reader.run Prefix.isByte (.ofBytes (o.bytes ++ tail))
      = .ok o.run ⟨o.opcode :: tail, o.run.length⟩ := by
    simp [Reader.run, Feed.ofBytes, o.takeWhile_append, o.dropWhile_append]
  have hlength : o.run.length + 1 = o.bytes.length := by simp [bytes]
  rw [← hlength]
  exact (bind_of_ok _ hprefixes).trans (bind_of_ok _ rfl)

/-- A head that is cut off ends the stream. -/
theorem read_of_short_head {tail : List UInt8}
    (h : tail.length < (Row.ofOpcode o.opcode).headSize tail) :
    ∃ next, Instruction.read (.ofBytes (o.bytes ++ tail))
        = .error (.endOfStream (some o.opcode)) next
      ∧ next.rest.length ≤ 1 := by
  obtain ⟨next, hnext, hle⟩ :=
    (Row.ofOpcode o.opcode).readModRM_of_short tail o.bytes.length h
  refine ⟨next, ?_, hle⟩
  rw [o.read_append, Reader.naming, Instruction.readBody, bind_of_error _ hnext]
  rfl

end Opening

namespace Heading

variable (h : Heading) (rest : List UInt8)

/-- Behind the head the row decides: no operation, or its operands. -/
theorem read_append :
    Instruction.read (.ofBytes (h.bytes ++ rest))
      = Reader.naming h.opcode
          (if h.row.mnemonic = .invalid then throw (.unknownOpcode h.opcode)
          else do
            let operands ← h.row.operands h.context
            let length ← Reader.taken
            return { opcode := h.opcode, length, mnemonic := h.row.mnemonic,
                     width := h.row.width, operands, prefixes := h.prefixes })
          ⟨rest, h.bytes.length⟩ := by
  have hhead := (Row.ofOpcode h.opcode).readModRM_append h.head rest
    h.toOpening.bytes.length h.head_size
  rw [bytes, List.append_assoc, h.toOpening.read_append, List.length_append]
  unfold Reader.naming
  rw [Instruction.readBody, bind_of_ok _ hhead]
  rfl

/-- A row without an operation is an unknown opcode, found behind the head. -/
theorem read_of_unassigned (hrow : h.row.mnemonic = .invalid) :
    Instruction.read (.ofBytes (h.bytes ++ rest))
      = .error (.unknownOpcode h.opcode) ⟨rest, h.bytes.length⟩ := by
  rw [h.read_append, if_pos hrow]
  rfl

/-- An operand that the operation cannot take is found behind the head. -/
theorem read_of_refused (hrow : h.row.mnemonic ≠ .invalid)
    (hrefused : h.row.accepts h.modRM = false) :
    Instruction.read (.ofBytes (h.bytes ++ rest))
      = .error (.invalidOperand h.opcode h.modRM.byte) ⟨rest, h.bytes.length⟩ := by
  have hoperands := h.row.operands_of_rejects h.context ⟨rest, h.bytes.length⟩
    Row.first_size_of_rejects hrefused
  rw [h.read_append, if_neg hrow, Reader.naming, bind_of_error _ hoperands]
  rfl

/-- A field that is cut is reported with the opcode, and at most one byte
of it is left. -/
theorem read_of_short_field (hrow : h.row.mnemonic ≠ .invalid)
    (haccepted : h.row.accepts h.modRM = true) (hshort : rest.length < h.row.fieldSize) :
    ∃ next, Instruction.read (.ofBytes (h.bytes ++ rest))
        = .error (.endOfStream (some h.opcode)) next
      ∧ next.rest.length ≤ 1 := by
  obtain ⟨next, hnext, hle⟩ :=
    (h.row.fixed_operands h.context haccepted).short rest h.bytes.length hshort
  refine ⟨next, ?_, hle⟩
  rw [h.read_append, if_neg hrow, Reader.naming, bind_of_error _ hnext]
  rfl

end Heading

/-- A layout is read back, whatever follows it. -/
theorem Layout.read_append (l : Layout) (rest : List UInt8) :
    Instruction.read (.ofBytes (l.bytes ++ rest))
      = .ok l.instruction ⟨rest, l.bytes.length⟩ := by
  have hoperands := (l.row.fixed_operands l.context l.accepted).ok l.field rest
    l.toHeading.bytes.length l.field_size
  have hlength : l.toHeading.bytes.length + l.row.fieldSize = l.bytes.length := by
    rw [bytes, List.length_append, l.field_size]
  rw [hlength] at hoperands
  rw [bytes, List.append_assoc, l.toHeading.read_append, if_neg l.assigned, Reader.naming,
    bind_of_ok _ hoperands]
  rfl

-- ========================================================== all cases

/-- How reading the bytes can end. -/
inductive Reading : List UInt8 → EStateM.Result Fault Feed Instruction → Prop where
  /-- There are only prefixes. -/
  | exhausted {run : List UInt8} (hrun : ∀ b ∈ run, Prefix.isByte b = true) :
      Reading run (.error (.endOfStream none) ⟨[], run.length⟩)
  /-- The stream ends in the ModRM byte or the displacement. -/
  | shortHead (o : Opening) {tail : List UInt8} {next : Feed}
      (hshort : tail.length < (Row.ofOpcode o.opcode).headSize tail)
      (hnext : next.rest.length ≤ 1) :
      Reading (o.bytes ++ tail) (.error (.endOfStream (some o.opcode)) next)
  /-- There is no such operation. -/
  | unassigned (h : Heading) (rest : List UInt8) (hrow : h.row.mnemonic = .invalid) :
      Reading (h.bytes ++ rest) (.error (.unknownOpcode h.opcode) ⟨rest, h.bytes.length⟩)
  /-- The operation cannot take the operand. -/
  | refused (h : Heading) (rest : List UInt8) (hrow : h.row.mnemonic ≠ .invalid)
      (hrefused : h.row.accepts h.modRM = false) :
      Reading (h.bytes ++ rest)
        (.error (.invalidOperand h.opcode h.modRM.byte) ⟨rest, h.bytes.length⟩)
  /-- The stream ends in the immediate bytes. -/
  | shortField (h : Heading) {rest : List UInt8} {next : Feed}
      (hrow : h.row.mnemonic ≠ .invalid) (haccepted : h.row.accepts h.modRM = true)
      (hshort : rest.length < h.row.fieldSize) (hnext : next.rest.length ≤ 1) :
      Reading (h.bytes ++ rest) (.error (.endOfStream (some h.opcode)) next)
  /-- There is an instruction. -/
  | accepted (l : Layout) (rest : List UInt8) :
      Reading (l.bytes ++ rest) (.ok l.instruction ⟨rest, l.bytes.length⟩)

/-- Behind a heading reading ends in one of four ways. -/
theorem Heading.reading_read (h : Heading) (rest : List UInt8) :
    Reading (h.bytes ++ rest) (Instruction.read (.ofBytes (h.bytes ++ rest))) := by
  by_cases hrow : h.row.mnemonic = .invalid
  · rw [h.read_of_unassigned rest hrow]
    exact .unassigned h rest hrow
  · by_cases haccepted : h.row.accepts h.modRM = true
    · by_cases hshort : rest.length < h.row.fieldSize
      · obtain ⟨next, hnext, hle⟩ := h.read_of_short_field rest hrow haccepted hshort
        rw [hnext]
        exact .shortField h hrow haccepted hshort hle
      · -- the field is there, so heading and field make a layout
        have hsize : (rest.take h.row.fieldSize).length = h.row.fieldSize := by
          rw [List.length_take]
          omega
        let l : Layout := ⟨h, rest.take h.row.fieldSize, hrow, haccepted, hsize⟩
        have hbytes : h.bytes ++ rest = l.bytes ++ rest.drop h.row.fieldSize := by
          show _ = h.bytes ++ rest.take h.row.fieldSize ++ rest.drop h.row.fieldSize
          rw [List.append_assoc, List.take_append_drop]
        rw [hbytes, l.read_append]
        exact .accepted l _
    · have hrefused : h.row.accepts h.modRM = false := by simpa using haccepted
      rw [h.read_of_refused rest hrow hrefused]
      exact .refused h rest hrow hrefused

/-- Behind an opening, reading ends in the head or behind it. -/
theorem Opening.reading_read (o : Opening) (tail : List UInt8) :
    Reading (o.bytes ++ tail) (Instruction.read (.ofBytes (o.bytes ++ tail))) := by
  by_cases hshort : tail.length < (Row.ofOpcode o.opcode).headSize tail
  · obtain ⟨next, hnext, hle⟩ := o.read_of_short_head hshort
    rw [hnext]
    exact .shortHead o hshort hle
  · -- the head is there, and on its own it asks for the same size
    have hsize : (tail.take ((Row.ofOpcode o.opcode).headSize tail)).length
        = (Row.ofOpcode o.opcode).headSize
            (tail.take ((Row.ofOpcode o.opcode).headSize tail)) := by
      rw [Row.headSize_take, List.length_take]
      omega
    let h : Heading := ⟨o, tail.take ((Row.ofOpcode o.opcode).headSize tail), hsize⟩
    have hbytes : o.bytes ++ tail
        = h.bytes ++ tail.drop ((Row.ofOpcode o.opcode).headSize tail) := by
      show _ = o.bytes ++ tail.take _ ++ tail.drop _
      rw [List.append_assoc, List.take_append_drop]
    rw [hbytes]
    exact h.reading_read _

/-- Reading ends in one of six ways. -/
theorem reading_read (bytes : List UInt8) :
    Reading bytes (Instruction.read (.ofBytes bytes)) := by
  have hsplit : bytes.takeWhile Prefix.isByte ++ bytes.dropWhile Prefix.isByte = bytes :=
    List.takeWhile_append_dropWhile
  have hrun : ∀ b ∈ bytes.takeWhile Prefix.isByte, Prefix.isByte b = true :=
    fun b hb => List.mem_takeWhile_imp hb
  cases hdrop : bytes.dropWhile Prefix.isByte with
  | nil =>
      rw [hdrop, List.append_nil] at hsplit
      rw [hsplit] at hrun
      rw [read_run hrun]
      exact .exhausted hrun
  | cons op tail =>
      have hop : Prefix.isByte op = false := by
        have hhead := List.head?_dropWhile_not Prefix.isByte bytes
        rw [hdrop] at hhead
        simpa using hhead
      let o : Opening := ⟨bytes.takeWhile Prefix.isByte, op, hrun, hop⟩
      have hbytes : bytes = o.bytes ++ tail := by
        show bytes = bytes.takeWhile Prefix.isByte ++ [op] ++ tail
        rw [List.append_assoc, List.singleton_append, ← hdrop, hsplit]
      rw [hbytes]
      exact o.reading_read tail

-- =========================================================== decoding

namespace Cursor

variable {c : Cursor} {front rest : List UInt8}

/-- Bytes that lie ahead may be moved over. -/
theorem length_le_remaining (h : c.rest = front ++ rest) : front.length ≤ c.remaining := by
  rw [remaining, h, List.length_append]
  exact Nat.le_add_right _ _

/-- Behind the bytes in front, the others lie ahead. -/
theorem rest_advance_length (h : c.rest = front ++ rest) :
    (c.advance front.length (length_le_remaining h)).rest = rest := by
  show c.rest.drop front.length = rest
  rw [h, List.drop_left]

/-- What reading leaves lies ahead of the cursor that it moves. -/
theorem rest_advance_of_read_error {fault : Fault} {next : Feed}
    (h : Instruction.read (.ofBytes c.rest) = .error fault next) :
    (c.advance next.taken (Reader.taken_le_of_error h)).rest = next.rest := by
  have hafter := (Reader.after_ofBytes Instruction.read c.rest).2
  rw [Reader.after, h] at hafter
  exact hafter.symm

end Cursor

/-- What is read as an instruction starts with a layout of it. -/
theorem exists_layout_of_read_ok {bytes : List UInt8} {i : Instruction} {next : Feed}
    (h : Instruction.read (.ofBytes bytes) = .ok i next) :
    ∃ (l : Layout) (rest : List UInt8), bytes = l.bytes ++ rest ∧ l.instruction = i
      ∧ next = ⟨rest, l.bytes.length⟩ := by
  have hreading := reading_read bytes
  rw [h] at hreading
  cases hreading with
  | accepted l rest => exact ⟨l, rest, rfl, rfl, rfl⟩

/-- Bytes decode to an instruction exactly if they start with a layout of
it. -/
theorem decodeNext_eq_ok_iff {bytes : List UInt8} {i : Instruction} :
    decodeNext bytes = .ok i
      ↔ ∃ (l : Layout) (rest : List UInt8), bytes = l.bytes ++ rest ∧ l.instruction = i := by
  constructor
  · intro h
    cases hread : Instruction.read (.ofBytes bytes) with
    | ok j next =>
        obtain ⟨l, rest, hbytes, rfl, -⟩ := exists_layout_of_read_ok hread
        rw [decodeNext, Cursor.decode_of_read_ok (c := .ofBytes bytes) hread] at h
        exact ⟨l, rest, hbytes, Except.ok.inj h⟩
    | error fault next =>
        rw [decodeNext, Cursor.decode_of_read_error (c := .ofBytes bytes) hread] at h
        cases h
  · rintro ⟨l, rest, rfl, rfl⟩
    rw [decodeNext, Cursor.decode_of_read_ok (c := .ofBytes (l.bytes ++ rest))
      (l.read_append rest)]

end Disasm8086
