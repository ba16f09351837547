/-
The grammar of instructions, and what becomes of bytes outside of it.
The grammar is stated on numbers alone: prefix bytes, opcode, ModRM byte
and sizes. It gives every stream of bytes a verdict: how long the
instruction at its start is, or which fault it has and how many bytes
are taken before the fault is found.

The order of the questions is part of the grammar. An opcode without an
operation is unknown whatever follows it, but the place of a group can
only be unknown once its ModRM byte and displacement are there; operands
are refused before any immediate byte is looked for.

The decoder follows the grammar from every position of every buffer
(`decode_eq_verdict`). The proof reads the verdict off the six ways in
which reading can end, and needs the laws of the opcode map to see that
the map and the numbers agree.
-/
import Disasm8086.Proofs.Layout

namespace Disasm8086

open Reader Opcode

namespace Grammar

-- ======================================================= the verdict

/-- What becomes of the bytes at the start of a stream. -/
inductive Verdict where
  /-- The stream ends too early; the opcode is known if it is there. -/
  | truncated (opcode : Option UInt8)
  /-- There is a fault, found behind `length` bytes. -/
  | rejected (fault : Fault) (length : Nat)
  /-- There is an instruction of `length` bytes with this opcode. -/
  | accepted (opcode : UInt8) (length : Nat)
  deriving DecidableEq, Repr

/-- The four segment overrides, the lock and the two repeat prefixes. -/
def prefixBytes : List UInt8 := [0x26, 0x2E, 0x36, 0x3E, 0xF0, 0xF2, 0xF3]

/-- How many bytes of displacement follow a ModRM byte. Its two top bits
announce one, two or none, and none is two where the three bottom bits
are six: there the address itself stands in place of `BP` alone. -/
def displacementSize (modRM : UInt8) : Nat :=
  if modRM.toNat / 64 = 1 then 1
  else if modRM.toNat / 64 = 2 ∨ modRM.toNat / 64 = 0 ∧ modRM.toNat % 8 = 6 then 2
  else 0

/-- The ModRM byte behind an opcode and the bytes that it and its
displacement take, if they are there. Opcodes without a ModRM byte take
none, and nothing depends on it then. -/
def modRM? (op : UInt8) (tail : List UInt8) : Option (ModRM × Nat) :=
  if takesModRM op then
    match tail with
    | [] => none
    | b :: field =>
      if field.length < displacementSize b then none
      else some (⟨b⟩, 1 + displacementSize b)
  else some (⟨0⟩, 0)

/-- The verdict on an opcode and what follows it, where `n` bytes have
been taken with the opcode. -/
def verdictBehind (n : Nat) (op : UInt8) (tail : List UInt8) : Verdict :=
  if isUnassigned op then .rejected (.unknownOpcode op) n
  else
    match modRM? op tail with
    | none => .truncated (some op)
    | some (m, size) =>
      if isHole op m.reg then .rejected (.unknownOpcode op) (n + size)
      else if refuses op m then .rejected (.invalidOperand op m.byte) (n + size)
      else if tail.length < size + fieldSize op m.reg then .truncated (some op)
      else .accepted op (n + size + fieldSize op m.reg)

/-- The verdict on a stream: a run of prefixes, as long as possible, and
then an opcode. -/
def verdict (bytes : List UInt8) : Verdict :=
  let run := bytes.takeWhile (· ∈ prefixBytes)
  match bytes.drop run.length with
  | [] => .truncated none
  | op :: tail => verdictBehind (run.length + 1) op tail

-- ======================================================== the parts

/-- The bytes taken as prefixes are those of the grammar. -/
theorem isByte_eq_mem (b : UInt8) : Prefix.isByte b = decide (b ∈ prefixBytes) := by
  unfold Prefix.isByte Prefix.ofByte? prefixBytes
  simp only [List.mem_cons, List.not_mem_nil, or_false]
  grind

/-- Prefixes alone are cut off before the opcode. -/
theorem verdict_run {run : List UInt8} (hrun : ∀ b ∈ run, Prefix.isByte b = true) :
    verdict run = .truncated none := by
  have htake : run.takeWhile (· ∈ prefixBytes) = run :=
    List.takeWhile_eq_self_iff.mpr fun b hb => isByte_eq_mem b ▸ hrun b hb
  simp [verdict, htake]

/-- Behind a run of prefixes, the verdict is a matter of the opcode. -/
theorem verdict_opening (o : Opening) (tail : List UInt8) :
    verdict (o.bytes ++ tail) = verdictBehind o.bytes.length o.opcode tail := by
  have hpredicate : (fun b => decide (b ∈ prefixBytes)) = Prefix.isByte :=
    funext fun b => (isByte_eq_mem b).symm
  have hdrop : (o.bytes ++ tail).drop o.run.length = o.opcode :: tail := by
    rw [Opening.bytes, List.append_assoc, List.drop_left]
    rfl
  have hlength : o.run.length + 1 = o.bytes.length := by simp [Opening.bytes]
  simp only [verdict, hpredicate, o.takeWhile_append, hdrop, hlength]

/-- Opcodes with a ModRM byte are assigned. -/
theorem isUnassigned_of_takesModRM {op : UInt8} (h : takesModRM op = true) :
    isUnassigned op = false := by
  have hlaw := Row.every_entry (fun op _ _ => !(takesModRM op && isUnassigned op))
    (by decide +kernel) op 0
  simpa [h] using hlaw

/-- The rule on the bits of a ModRM byte is the one by which displacements
are read. -/
theorem displacementSize_byte (m : ModRM) : displacementSize m.byte = m.displacementSize := by
  have hmod : m.mod.val = m.byte.toNat / 64 := by
    have hlt := m.byte.toNat_lt
    exact Nat.mod_eq_of_lt (by omega)
  have hone : m.mod = 1 ↔ m.byte.toNat / 64 = 1 := by rw [← hmod, Fin.ext_iff]; rfl
  have htwo : (m.mod = 2 ∨ m.mod = 0 ∧ m.rm = 6)
      ↔ (m.byte.toNat / 64 = 2 ∨ m.byte.toNat / 64 = 0 ∧ m.byte.toNat % 8 = 6) := by
    rw [← hmod, Fin.ext_iff, Fin.ext_iff, Fin.ext_iff]
    rfl
  unfold displacementSize ModRM.displacementSize ModRM.displacementWidth
  rw [← if_congr hone rfl rfl, ← if_congr htwo rfl rfl]
  by_cases hbyte : m.mod = 1
  · rw [if_pos hbyte, if_pos hbyte]
  · rw [if_neg hbyte, if_neg hbyte]
    split <;> rfl

/-- Where the head is cut, the grammar finds no ModRM byte. -/
theorem modRM?_of_short {op : UInt8} {tail : List UInt8}
    (h : tail.length < (Row.ofOpcode op).headSize tail) :
    takesModRM op = true ∧ modRM? op tail = none := by
  rw [Row.headSize, Row.hasModRM_ofOpcode] at h
  by_cases hmodRM : takesModRM op = true
  · rw [if_pos hmodRM] at h
    refine ⟨hmodRM, ?_⟩
    unfold modRM?
    rw [if_pos hmodRM]
    cases tail with
    | nil => rfl
    | cons b field =>
        have hshort : field.length < displacementSize b := by
          rw [displacementSize_byte ⟨b⟩]
          rw [List.length_cons, Nat.add_comm] at h
          exact Nat.lt_of_add_lt_add_left h
        exact if_pos hshort
  · rw [if_neg hmodRM] at h
    exact absurd h (Nat.not_lt_zero _)

/-- Where the head is there, the grammar finds it. -/
theorem modRM?_of_heading (h : Heading) (rest : List UInt8) :
    modRM? h.opcode (h.head ++ rest) = some (h.modRM, h.head.length) := by
  have hsize := h.head_size
  rw [Row.headSize, Row.hasModRM_ofOpcode] at hsize
  unfold modRM?
  by_cases hmodRM : takesModRM h.opcode = true
  · rw [if_pos hmodRM] at hsize ⊢
    unfold Heading.modRM
    cases hhead : h.head with
    | nil =>
        rw [hhead, List.length_nil] at hsize
        omega
    | cons b field =>
        rw [hhead] at hsize
        have hfield : field.length = displacementSize b := by
          rw [displacementSize_byte ⟨b⟩]
          rw [List.length_cons, Nat.add_comm] at hsize
          exact Nat.add_left_cancel hsize
        have hlong : ¬ (field ++ rest).length < displacementSize b := by
          rw [List.length_append]
          omega
        show (if (field ++ rest).length < _ then none else _) = _
        rw [if_neg hlong, List.length_cons, hfield, Nat.add_comm]
        rfl
  · rw [if_neg hmodRM] at hsize ⊢
    rw [Heading.modRM, List.length_eq_zero_iff.mp hsize]
    rfl

/-- The verdict behind a heading is a matter of its row. -/
theorem verdict_heading (h : Heading) (rest : List UInt8) :
    verdict (h.bytes ++ rest) =
      if h.row.mnemonic = .invalid then .rejected (.unknownOpcode h.opcode) h.bytes.length
      else if h.row.accepts h.modRM = false then
        .rejected (.invalidOperand h.opcode h.modRM.byte) h.bytes.length
      else if rest.length < h.row.fieldSize then .truncated (some h.opcode)
      else .accepted h.opcode (h.bytes.length + h.row.fieldSize) := by
  have hinvalid := Row.mnemonic_entry_eq_invalid_iff h.opcode_ne_prefix h.modRM.reg
  have hlength : h.toOpening.bytes.length + h.head.length = h.bytes.length := by
    rw [Heading.bytes, List.length_append]
  rw [Heading.bytes, List.append_assoc, verdict_opening, verdictBehind,
    modRM?_of_heading, h.row_eq_entry, Row.accepts_entry]
  by_cases hunassigned : isUnassigned h.opcode = true
  · have hhead : h.head.length = 0 := by
      have hmodRM : ¬ takesModRM h.opcode = true := fun hmodRM => by
        rw [isUnassigned_of_takesModRM hmodRM] at hunassigned
        cases hunassigned
      rw [h.head_size, Row.headSize, Row.hasModRM_ofOpcode, if_neg hmodRM]
    rw [if_pos hunassigned, if_pos (hinvalid.mpr (Or.inl hunassigned)), List.length_append,
      hhead, Nat.add_zero]
  · rw [if_neg hunassigned]
    by_cases hhole : isHole h.opcode h.modRM.reg = true
    · rw [if_pos (hinvalid.mpr (Or.inr hhole))]
      simp only [if_pos hhole, List.length_append]
    · have hassigned : ¬ (Row.entry h.opcode h.modRM.reg).mnemonic = .invalid := fun hrow =>
        (hinvalid.mp hrow).elim hunassigned hhole
      rw [if_neg hassigned, Row.fieldSize_entry (by simpa using hhole)]
      simp only [if_neg hhole, List.length_append, Nat.add_lt_add_iff_left,
        Bool.not_eq_false', Nat.add_assoc]

/-- The ways in which reading ends are the verdicts. -/
theorem verdict_of_reading {bytes : List UInt8}
    {result : EStateM.Result Fault Feed Instruction} (h : Reading bytes result) :
    match verdict bytes with
    | .truncated opcode => ∃ next,
        result = .error (.endOfStream opcode) next ∧ next.rest.length ≤ 1
    | .rejected fault length => ∃ rest, result = .error fault ⟨rest, length⟩
    | .accepted opcode length => ∃ (i : Instruction) (rest : List UInt8),
        i.opcode = opcode ∧ i.length = length ∧ result = .ok i ⟨rest, length⟩ := by
  cases h with
  | exhausted hrun =>
      rw [verdict_run hrun]
      exact ⟨_, rfl, Nat.zero_le 1⟩
  | @shortHead o tail next hshort hnext =>
      obtain ⟨hmodRM, hnone⟩ := modRM?_of_short hshort
      rw [verdict_opening, verdictBehind, isUnassigned_of_takesModRM hmodRM, hnone]
      exact ⟨next, rfl, hnext⟩
  | unassigned h rest hrow =>
      rw [verdict_heading, if_pos hrow]
      exact ⟨rest, rfl⟩
  | refused h rest hrow hrefused =>
      rw [verdict_heading, if_neg hrow, if_pos hrefused]
      exact ⟨rest, rfl⟩
  | @shortField h rest next hrow haccepted hshort hnext =>
      rw [verdict_heading, if_neg hrow, if_neg (by simp [haccepted]), if_pos hshort]
      exact ⟨next, rfl, hnext⟩
  | accepted l rest =>
      have hlong : ¬ (l.field ++ rest).length < l.row.fieldSize := by
        rw [List.length_append, l.field_size]
        omega
      have hlength : l.toHeading.bytes.length + l.row.fieldSize = l.bytes.length := by
        rw [Layout.bytes, List.length_append, l.field_size]
      rw [Layout.bytes, List.append_assoc, verdict_heading, if_neg l.assigned,
        if_neg (by simp [l.accepted]), if_neg hlong, hlength]
      exact ⟨l.instruction, rest, rfl, rfl, rfl⟩

end Grammar

-- ====================================================== the statement

/-- The decoder follows the grammar, at every position of every buffer: it
succeeds on the instructions of the grammar and takes exactly their
bytes, and reports every other stream as the grammar says, with the
position at which it started. Where the stream ends too early, at most
one byte is left. -/
theorem decode_eq_verdict (c : Cursor) :
    match Grammar.verdict (c.buffer.drop c.position) with
    | .truncated opcode => ∃ (length : Nat) (h : length ≤ c.remaining),
        c.decode = (.error ⟨c.position, .endOfStream opcode⟩, c.advance length h)
          ∧ (c.advance length h).remaining ≤ 1
    | .rejected fault length => ∃ h : length ≤ c.remaining,
        c.decode = (.error ⟨c.position, fault⟩, c.advance length h)
    | .accepted opcode length => ∃ (i : Instruction) (h : length ≤ c.remaining),
        i.opcode = opcode ∧ i.length = length ∧ c.decode = (.ok i, c.advance length h) := by
  rw [← c.rest_eq]
  have hverdict := Grammar.verdict_of_reading (reading_read c.rest)
  cases hcase : Grammar.verdict c.rest with
  | truncated opcode =>
      rw [hcase] at hverdict
      obtain ⟨next, hread, hle⟩ := hverdict
      refine ⟨next.taken, taken_le_of_error hread, Cursor.decode_of_read_error hread, ?_⟩
      rw [Cursor.remaining, Cursor.rest_advance_of_read_error hread]
      exact hle
  | rejected fault length =>
      rw [hcase] at hverdict
      obtain ⟨rest, hread⟩ := hverdict
      exact ⟨taken_le_of_error hread, Cursor.decode_of_read_error hread⟩
  | accepted opcode length =>
      rw [hcase] at hverdict
      obtain ⟨i, rest, hopcode, hlength, hread⟩ := hverdict
      exact ⟨i, taken_le_of_ok hread, hopcode, hlength, Cursor.decode_of_read_ok hread⟩

end Disasm8086
