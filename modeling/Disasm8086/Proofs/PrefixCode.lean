/-
The encodings form a prefix code. What becomes of a stream is settled by
an initial part of it: an instruction by its own bytes, and a fault other
than the end of the stream by the bytes in front of the fault. Whatever
follows these makes no difference. No proper initial part of an encoding
is settled, and six bytes behind the prefixes settle every stream.

# The argument

- `read_append_of_ok`, `read_append_of_error`: more bytes behind a settled
  stream are left over and change nothing else. Layouts and headings say
  this outright, since they are read back whatever follows.
- `exists_truncation_of_lt`: a cut anywhere inside of an encoding leaves
  a truncated stream. There is no case analysis over the places of the
  cut: if the part in front of it were settled, so would the whole be,
  and in the same way.
- `length_dropWhile_lt_of_truncation`: a truncated stream has at most five bytes
  behind its prefixes, since ModRM byte and displacement take at most
  three bytes and leave at most two for the field, and without them the
  field takes at most four.
-/
import Disasm8086.Proofs.Layout

namespace Disasm8086

/-- Whether the stream ends inside of an instruction. -/
def Fault.isTruncation : Fault → Bool
  | .endOfStream _ => true
  | _ => false

/-- Whether the bytes end too early. -/
def DecodeError.isTruncation (e : DecodeError) : Bool := e.fault.isTruncation

-- ===================================================== decoding by reading

section Reading

variable {bytes : List UInt8} {i : Instruction} {fault : Fault} {next : Feed}

/-- What is read at the start is what is decoded there. -/
theorem decodeNext_of_read_ok (h : Instruction.read (.ofBytes bytes) = .ok i next) :
    decodeNext bytes = .ok i := by
  rw [decodeNext, Cursor.decode_of_read_ok (c := .ofBytes bytes) h]

theorem decodeNext_of_read_error
    (h : Instruction.read (.ofBytes bytes) = .error fault next) :
    decodeNext bytes = .error ⟨0, fault⟩ := by
  rw [decodeNext, Cursor.decode_of_read_error (c := .ofBytes bytes) h]
  rfl

/-- An error is the fault that reading finds, at the start of the bytes. -/
theorem exists_read_error_of_decodeNext {e : DecodeError} (h : decodeNext bytes = .error e) :
    ∃ fault next, Instruction.read (.ofBytes bytes) = .error fault next ∧ e = ⟨0, fault⟩ := by
  cases hread : Instruction.read (.ofBytes bytes) with
  | ok j next =>
      rw [decodeNext_of_read_ok hread] at h
      cases h
  | error fault next =>
      rw [decodeNext_of_read_error hread] at h
      cases h
      exact ⟨fault, next, rfl, rfl⟩

-- ======================================================= settled streams

/-- An instruction is read without a look at what follows it. -/
theorem read_append_of_ok (h : Instruction.read (.ofBytes bytes) = .ok i next)
    (more : List UInt8) :
    Instruction.read (.ofBytes (bytes ++ more)) = .ok i ⟨next.rest ++ more, next.taken⟩ := by
  obtain ⟨l, rest, rfl, rfl, rfl⟩ := exists_layout_of_read_ok h
  rw [List.append_assoc]
  exact l.read_append (rest ++ more)

/-- A fault that is not a truncation is found without a look at what
follows. -/
theorem read_append_of_error (h : Instruction.read (.ofBytes bytes) = .error fault next)
    (hfault : fault.isTruncation = false) (more : List UInt8) :
    Instruction.read (.ofBytes (bytes ++ more)) = .error fault ⟨next.rest ++ more, next.taken⟩ := by
  have hreading := reading_read bytes
  rw [h] at hreading
  cases hreading with
  | exhausted => cases hfault
  | shortHead => cases hfault
  | shortField => cases hfault
  | unassigned heading rest hrow =>
      rw [List.append_assoc]
      exact heading.read_of_unassigned (rest ++ more) hrow
  | refused heading rest hrow hrefused =>
      rw [List.append_assoc]
      exact heading.read_of_refused (rest ++ more) hrow hrefused

/-- More bytes behind a settled stream make no difference. -/
theorem decodeNext_append (hsettled : ∀ e, decodeNext bytes = .error e → e.isTruncation = false)
    (more : List UInt8) : decodeNext (bytes ++ more) = decodeNext bytes := by
  cases hread : Instruction.read (.ofBytes bytes) with
  | ok j next =>
      rw [decodeNext_of_read_ok hread, decodeNext_of_read_ok (read_append_of_ok hread more)]
  | error fault next =>
      have hfault := hsettled _ (decodeNext_of_read_error hread)
      rw [decodeNext_of_read_error hread,
        decodeNext_of_read_error (read_append_of_error hread hfault more)]

end Reading

-- ================================================================= sizes

theorem ModRM.displacementSize_le (m : ModRM) : m.displacementSize ≤ 2 := by
  unfold displacementSize
  cases m.displacementWidth <;> decide

namespace Row

/-- ModRM byte and displacement take three bytes at most. -/
theorem headSize_le (op : UInt8) (bytes : List UInt8) :
    (ofOpcode op).headSize bytes ≤ if Opcode.takesModRM op then 3 else 0 := by
  have hsize := (modRMOf bytes).displacementSize_le
  rw [headSize, hasModRM_ofOpcode]
  split <;> omega

/-- A ModRM byte leaves room for one word at most. -/
theorem fieldSize_entry_le (op : UInt8) (reg : Fin 8) :
    (entry op reg).fieldSize ≤ if Opcode.takesModRM op then 2 else 4 := by
  have hlaw := every_entry (fun op _ row =>
    decide (row.fieldSize ≤ if Opcode.takesModRM op then 2 else 4)) (by decide +kernel) op reg
  exact of_decide_eq_true hlaw

end Row

/-- Five bytes at most follow the opcode. -/
theorem Heading.length_head_add_fieldSize_le (h : Heading) :
    h.head.length + h.row.fieldSize ≤ 5 := by
  have hhead := Row.headSize_le h.opcode h.head
  have hfield := Row.fieldSize_entry_le h.opcode h.modRM.reg
  rw [← h.head_size] at hhead
  rw [← h.row_eq_entry] at hfield
  by_cases hmodRM : Opcode.takesModRM h.opcode = true
  · rw [if_pos hmodRM] at hhead hfield
    omega
  · rw [if_neg hmodRM] at hhead hfield
    omega

-- ===================================================== truncated streams

/-- A truncated stream has only prefixes, or an opening of which the rest
is missing. -/
theorem exists_opening_of_truncation {bytes : List UInt8} {opcode : Option UInt8} {next : Feed}
    (h : Instruction.read (.ofBytes bytes) = .error (.endOfStream opcode) next) :
    (opcode = none ∧ ∀ b ∈ bytes, Prefix.isByte b = true)
      ∨ ∃ (o : Opening) (tail : List UInt8), bytes = o.bytes ++ tail ∧ opcode = some o.opcode
          ∧ tail.length ≤ 4 := by
  have hreading := reading_read bytes
  rw [h] at hreading
  cases hreading with
  | exhausted hrun => exact Or.inl ⟨rfl, hrun⟩
  | @shortHead o tail _ hshort _ =>
      have hsize := Row.headSize_le o.opcode tail
      refine Or.inr ⟨o, tail, rfl, rfl, ?_⟩
      split at hsize <;> omega
  | @shortField heading rest _ _ _ hshort _ =>
      have hsize := heading.length_head_add_fieldSize_le
      refine Or.inr ⟨heading.toOpening, heading.head ++ rest, ?_, rfl, ?_⟩
      · rw [Heading.bytes, List.append_assoc]
      · rw [List.length_append]
        omega

/-- Six bytes behind the prefixes are enough. -/
theorem length_dropWhile_lt_of_truncation {bytes : List UInt8} {opcode : Option UInt8}
    {next : Feed}
    (h : Instruction.read (.ofBytes bytes) = .error (.endOfStream opcode) next) :
    (bytes.dropWhile Prefix.isByte).length < 6 := by
  rcases exists_opening_of_truncation h with ⟨-, hrun⟩ | ⟨o, tail, rfl, -, hle⟩
  · rw [List.dropWhile_eq_nil_iff.mpr hrun]
    decide
  · rw [o.dropWhile_append, List.length_cons]
    omega

namespace Layout

variable (l : Layout) {k : Nat}

/-- A cut inside of an encoding leaves a truncated stream. -/
theorem exists_truncation_of_lt (hk : k < l.bytes.length) :
    ∃ opcode next, Instruction.read (.ofBytes (l.bytes.take k))
      = .error (.endOfStream opcode) next := by
  have hwhole := l.read_append []
  rw [List.append_nil, ← List.take_append_drop k l.bytes] at hwhole
  cases hread : Instruction.read (.ofBytes (l.bytes.take k)) with
  | ok j next =>
      -- the bytes behind the cut would be left over
      rw [read_append_of_ok hread] at hwhole
      injection hwhole with _ hfeed
      have hrest := congrArg (fun feed => feed.rest.length) hfeed
      simp only [List.length_nil] at hrest
      rw [List.length_append, List.length_drop] at hrest
      omega
  | error fault next =>
      cases fault with
      | endOfStream opcode => exact ⟨opcode, next, rfl⟩
      | unknownOpcode op =>
          rw [read_append_of_error hread rfl] at hwhole
          cases hwhole
      | invalidOperand op m =>
          rw [read_append_of_error hread rfl] at hwhole
          cases hwhole

/-- What is missing behind the cut is reported for the opcode, once the
cut lies behind it. -/
theorem decodeNext_take (hk : k < l.bytes.length) :
    decodeNext (l.bytes.take k) = .error ⟨0, .endOfStream
      (if (l.bytes.take k).all Prefix.isByte then none else some l.opcode)⟩ := by
  obtain ⟨opcode, next, hread⟩ := l.exists_truncation_of_lt hk
  rw [decodeNext_of_read_error hread]
  rcases exists_opening_of_truncation hread with ⟨rfl, hrun⟩ | ⟨o, tail, hbytes, rfl, -⟩
  · rw [if_pos (List.all_eq_true.mpr hrun)]
  · have hnot : ¬ (l.bytes.take k).all Prefix.isByte = true := by
      intro hall
      have hmem : o.opcode ∈ l.bytes.take k := by
        rw [hbytes, Opening.bytes]
        simp
      have hprefix := List.all_eq_true.mp hall o.opcode hmem
      rw [o.opcode_ne_prefix] at hprefix
      cases hprefix
    -- both openings are the one at the start of the encoding
    have hopcode : o.opcode :: (tail ++ l.bytes.drop k) = l.opcode :: (l.head ++ l.field) := by
      rw [← o.dropWhile_append, ← l.toOpening.dropWhile_append, ← List.append_assoc, ← hbytes,
        List.take_append_drop, ← List.append_assoc]
      rfl
    rw [if_neg hnot, (List.cons.inj hopcode).1]

end Layout

-- ========================================================= the statement

/-- The encodings form a prefix code with bounded lookahead: a stream that
is not truncated keeps its result whatever follows it, an encoding is
decoded from its own bytes and from no fewer, and six bytes behind the
prefixes are never too few. -/
theorem encodings_form_prefix_code (bytes more : List UInt8) :
    ((∀ e, decodeNext bytes = .error e → e.isTruncation = false) →
        decodeNext (bytes ++ more) = decodeNext bytes)
      ∧ (∀ i, decodeNext bytes = .ok i →
        decodeNext (bytes.take i.length) = .ok i
          ∧ ∀ k < i.length, decodeNext (bytes.take k) = .error ⟨0, .endOfStream
              (if (bytes.take k).all Prefix.isByte then none else some i.opcode)⟩)
      ∧ (6 ≤ (bytes.dropWhile Prefix.isByte).length →
        ∀ e, decodeNext bytes = .error e → e.isTruncation = false) := by
  refine ⟨fun hsettled => decodeNext_append hsettled more, ?_, ?_⟩
  · intro i hi
    obtain ⟨l, rest, rfl, rfl⟩ := decodeNext_eq_ok_iff.mp hi
    have hlength : l.instruction.length = l.bytes.length := rfl
    refine ⟨?_, fun k hk => ?_⟩
    · rw [hlength, List.take_left]
      exact decodeNext_eq_ok_iff.mpr ⟨l, [], by simp, rfl⟩
    · rw [hlength] at hk
      rw [List.take_append_of_le_length (Nat.le_of_lt hk)]
      exact l.decodeNext_take hk
  · intro hlong e he
    obtain ⟨fault, next, hread, rfl⟩ := exists_read_error_of_decodeNext he
    cases fault with
    | endOfStream opcode =>
        have hshort := length_dropWhile_lt_of_truncation hread
        omega
    | unknownOpcode op => rfl
    | invalidOperand op m => rfl

/-- An addition of a word to a word in memory behind an override, which
takes six bytes behind its prefix; it is cut behind the prefix, and
before its last byte. -/
theorem encodings_form_prefix_code_of_long_addition :
    ∃ i : Instruction, i.length = 7
      ∧ decodeNext [0x26, 0x81, 0x86, 0x34, 0x12, 0xCD, 0xAB, 0x90] = .ok i
      ∧ decodeNext [0x26, 0x81, 0x86, 0x34, 0x12, 0xCD, 0xAB, 0x90, 0x0F] = .ok i
      ∧ decodeNext [0x26, 0x81, 0x86, 0x34, 0x12, 0xCD, 0xAB] = .ok i
      ∧ decodeNext [0x26] = .error ⟨0, .endOfStream none⟩
      ∧ decodeNext [0x26, 0x81, 0x86, 0x34, 0x12, 0xCD] = .error ⟨0, .endOfStream (some 0x81)⟩
      ∧ ∀ e, decodeNext [0x26, 0x81, 0x86, 0x34, 0x12, 0xCD, 0xAB, 0x90] = .error e →
          e.isTruncation = false := by
  obtain ⟨happend, hparts, hsettled⟩ := encodings_form_prefix_code
    [0x26, 0x81, 0x86, 0x34, 0x12, 0xCD, 0xAB, 0x90] [0x0F]
  have hok : decodeNext [0x26, 0x81, 0x86, 0x34, 0x12, 0xCD, 0xAB, 0x90] = .ok
      { opcode := 0x81, length := 7, mnemonic := .ADD, width := .word
        operands := [.memory ⟨.bp, .word 0x1234, some .ES, .word⟩,
          .immediate ⟨-21555, .word, .plain⟩]
        prefixes := ⟨0x004⟩ } := by decide +kernel
  obtain ⟨hwhole, hcut⟩ := hparts _ hok
  have hnever := hsettled (by decide +kernel)
  exact ⟨_, rfl, hok, (happend hnever).trans hok, hwhole, hcut 1 (by decide), hcut 6 (by decide),
    hnever⟩

end Disasm8086
