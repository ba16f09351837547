/-
Decoding with every step accounted for. A decoder works with numbers: it
looks rows up by their place in the opcode map, it takes bytes out of a
buffer by position, it exchanges two operands by place, and it counts
the bytes of an instruction in a counter of 32 bits, some of them before
they are read and some after. Each of these can go wrong in a way that
is no fault of the bytes. Here they are steps that stop with a defect
when they go wrong, and the result is that none ever does.

# The argument

The checked decoder and the decoder are run side by side. What holds
between the two is a triple `Follows before step reader behind`: if
`before` relates the position and the counter to the feed, then the step
ends as the reader does, without a defect, and `behind` relates what they
leave. Triples are closed under sequence (`Follows.bind`).

The relation is `Counted lag`: the position is that of the feed, and the
counter is ahead of the bytes taken by `lag`. Reading lowers the lag and
counting raises it, so the places at which bytes are counted, before or
behind the read, are right exactly if every part of an instruction leads
from lag zero back to lag zero.
-/
import Disasm8086.Proofs.PrefixCode

namespace Disasm8086

namespace Checked

-- ================================================================ steps

/-- What can go wrong apart from the bytes: a row or a byte is looked up
that is not there, operands are exchanged of which there are fewer than
two, a count needs more than 32 bits, a difference is less than zero, or
the bytes counted are not the bytes taken. -/
inductive Defect where
  | outsideMap
  | outsideBuffer
  | missingOperand
  | overflow
  | underflow
  | miscounted
  deriving DecidableEq, Repr

/-- Why decoding stops without an instruction. -/
inductive Stop where
  | fault (fault : Fault)
  | defect (defect : Defect)
  deriving DecidableEq, Repr

/-- The position in the buffer, and the bytes counted so far. -/
structure Progress where
  position : Nat
  size : Nat
  deriving DecidableEq, Repr

/-- A step either ends or stops, at some progress. -/
abbrev Step := EStateM Stop Progress

/-- A difference of numbers without a sign. -/
def difference (a b : Nat) : Step Nat :=
  if a < b then throw (.defect .underflow) else pure (a - b)

theorem difference_of_le {a b : Nat} (h : b ≤ a) : difference a b = pure (a - b) :=
  if_neg (Nat.not_lt.mpr h)

/-- Counts `n` bytes more. -/
def count (n : Nat) : Step Unit := fun p =>
  if p.size + n < UInt32.size then .ok () { p with size := p.size + n }
  else .error (.defect .overflow) p

/-- The row with the given number, in the map of all rows. -/
def rowAt (index : Nat) : Step Row :=
  match Row.all[index]? with
  | some row => pure row
  | none => throw (.defect .outsideMap)

/-- Exchanges the first two operands. -/
def exchange : List Operand → Step (List Operand)
  | first :: second :: rest => pure (second :: first :: rest)
  | _ => throw (.defect .missingOperand)

/-- The bytes counted, once they are known to be those taken. -/
def measured (start : Nat) : Step Nat := do
  let p ← get
  let taken ← difference p.position start
  if taken = p.size then return p.size else throw (.defect .miscounted)

/-- Names the opcode in a fault. A defect is passed on as it is. -/
def naming {α : Type} (opcode : UInt8) (s : Step α) : Step α := fun p =>
  match s p with
  | .ok a q => .ok a q
  | .error (.fault fault) q => .error (.fault (fault.naming opcode)) q
  | .error (.defect defect) q => .error (.defect defect) q

section Reading

variable (buffer : List UInt8)

/-- The byte at a place that is taken to be in the buffer. -/
def byteAt (index : Nat) : Step UInt8 :=
  match buffer[index]? with
  | some b => pure b
  | none => throw (.defect .outsideBuffer)

/-- Takes the byte at the position. -/
def byte : Step UInt8 := fun p =>
  match buffer[p.position]? with
  | some b => .ok b { p with position := p.position + 1 }
  | none => .error (.fault (.endOfStream none)) p

/-- Takes the word at the position, once two bytes are known to be there. -/
def word : Step UInt16 := do
  let p ← get
  let remaining ← difference buffer.length p.position
  if remaining < 2 then
    throw (.fault (.endOfStream none))
  else
    let low ← byteAt buffer p.position
    let high ← byteAt buffer (p.position + 1)
    set { p with position := p.position + 2 }
    return littleEndian low high

-- ============================================================= decoding

/-- Reads prefixes up to the opcode, and counts each byte behind its read. -/
def readOpcode (prefixes : Prefixes) (p : Progress) :
    EStateM.Result Stop Progress (Prefixes × UInt8) :=
  match _h : buffer[p.position]? with
  | none => .error (.fault (.endOfStream none)) p
  | some b =>
    if p.size + 1 < UInt32.size then
      match Prefix.ofByte? b with
      | some found => readOpcode (prefixes.insert found) ⟨p.position + 1, p.size + 1⟩
      | none => .ok (prefixes, b) ⟨p.position + 1, p.size + 1⟩
    else .error (.defect .overflow) ⟨p.position + 1, p.size⟩
termination_by buffer.length - p.position
decreasing_by
  have hlt := (List.getElem?_eq_some_iff.mp ‹_›).1
  omega

/-- Takes the displacement that a ModRM byte announces. -/
def readDisplacement (m : ModRM) : Step Displacement :=
  match m.displacementWidth with
  | .none => pure .none
  | .byte => .byte <$> UInt8.toInt8 <$> byte buffer
  | .word => .word <$> UInt16.toInt16 <$> word buffer

/-- Reads a ModRM byte and its displacement, and counts both at the end. -/
def readModRM : Step (ModRM × Displacement) := do
  let m : ModRM := ⟨← byte buffer⟩
  let displacement ← readDisplacement buffer m
  count (1 + displacement.encodedSize)
  return (m, displacement)

/-- The ModRM byte and the displacement of a row that has them. -/
def readModRMOf (row : Row) : Step (ModRM × Displacement) :=
  if row.hasModRM then readModRM buffer else pure (⟨0⟩, .none)

/-- Counts the bytes of an operand in front of their read. -/
def counted {α : Type} (n : Nat) (s : Step α) : Step α := do
  count n
  s

/-- The operands of a pattern, with what they need counted and taken. -/
def resolve (ctx : OperandContext) : Pattern → Step (List Operand)
  | .none => pure []
  | .rm8 => pure [ctx.rmOperand .byte]
  | .rm16 => pure [ctx.rmOperand .word]
  | .mem =>
    match ctx.memory? .word with
    | some m => pure [.memory m]
    | .none => throw (.fault ctx.invalid)
  | .reg8 => pure [.register (ctx.modRM.regRegister .byte)]
  | .reg16 => pure [.register (ctx.modRM.regRegister .word)]
  | .segment =>
    match ctx.modRM.segment? with
    | some s => pure [.register s.register]
    | .none => throw (.fault ctx.invalid)
  | .segmentTarget =>
    match ctx.modRM.segment? with
    | some .CS | .none => throw (.fault ctx.invalid)
    | some s => pure [.register s.register]
  | .imm8 => counted 1 ((fun b => [.immediate (.byte b)]) <$> byte buffer)
  | .imm16 => counted 2 ((fun w => [.immediate (.word w)]) <$> word buffer)
  | .imm8Extended =>
    counted 1 ((fun b => [.immediate (.signExtended b)]) <$> UInt8.toInt8 <$> byte buffer)
  | .imm8Unsigned =>
    counted 1 ((fun b => [.immediate ((Immediate.byte b).withRole .unsigned)]) <$> byte buffer)
  | .imm16Unsigned =>
    counted 2 ((fun w => [.immediate ((Immediate.word w).withRole .unsigned)]) <$> word buffer)
  | .rel8 => counted 1 ((fun d => [.immediate (.relativeByte d)]) <$> UInt8.toInt8 <$> byte buffer)
  | .rel16 =>
    counted 2 ((fun d => [.immediate (.relativeWord d)]) <$> UInt16.toInt16 <$> word buffer)
  | .offset8 => counted 2 ((fun a => [ctx.directOperand .byte a]) <$> word buffer)
  | .offset16 => counted 2 ((fun a => [ctx.directOperand .word a]) <$> word buffer)
  | .fixed r => pure [.register r]
  | .implied value => pure [.immediate (.byte value)]
  | .farPointer => do
    -- the one operand that is counted behind its read
    let offset ← word buffer
    let segment ← word buffer
    count 4
    return [.immediate ((Immediate.word segment).withRole .farSegment),
      .immediate ((Immediate.word offset).withRole .farOffset)]
  | .external =>
    pure [.immediate ((Immediate.byte ctx.externalOpcode).withRole .unsigned)]

/-- The operands of a row. Those of some rows are exchanged for register
forms. -/
def operands (row : Row) (ctx : OperandContext) : Step (List Operand) := do
  let first ← resolve buffer ctx row.first
  let second ← resolve buffer ctx row.second
  let listed := first ++ second
  if row.reversesRegisters && !ctx.modRM.isMemory then exchange listed else return listed

/-- The row of an opcode, and the ModRM byte if it was needed to find it.
The rows of the groups lie behind those of the 256 opcodes. -/
def selectRow (opcode : UInt8) : Step (Row × Option (ModRM × Displacement)) := do
  let row ← rowAt opcode.toNat
  match row.group with
  | none => return (row, none)
  | some group =>
    let head ← readModRM buffer
    let place ← difference group.number 1
    return (← rowAt (256 + place * 8 + head.1.reg.val), some head)

variable (start : Nat)

/-- Reads the operands of a row and completes the instruction. -/
def complete (prefixes : Prefixes) (opcode : UInt8) (row : Row)
    (head : ModRM × Displacement) : Step Instruction := do
  let operands ← operands buffer row
    { opcode, modRM := head.1, displacement := head.2, override := prefixes.segment? }
  let length ← measured start
  return { opcode, length, mnemonic := row.mnemonic, width := row.width, operands, prefixes }

/-- Reads what follows the opcode, whose row may need the ModRM byte to be
known. -/
def readBody (prefixes : Prefixes) (opcode : UInt8) : Step Instruction := do
  let (row, loaded) ← selectRow buffer opcode
  if row.mnemonic = .invalid then
    throw (.fault (.unknownOpcode opcode))
  else
    match loaded with
    | some head => complete buffer start prefixes opcode row head
    | none =>
      let head ← readModRMOf buffer row
      complete buffer start prefixes opcode row head

/-- Reads an instruction from its first byte on. -/
def read : Step Instruction := do
  let (prefixes, opcode) ← readOpcode buffer .empty
  naming opcode (readBody buffer start prefixes opcode)

/-- Decodes the instruction at a position of the buffer: the instruction
or the error, and the position behind. -/
def decode : Except Defect (Except DecodeError Instruction × Nat) :=
  match read buffer start ⟨start, 0⟩ with
  | .ok i p => .ok (.ok i, p.position)
  | .error (.fault fault) p => .ok (.error ⟨start, fault⟩, p.position)
  | .error (.defect defect) _ => .error defect

end Reading

-- ============================================================== triples

/-- The position is that of the feed. -/
structure Tracks (buffer : List UInt8) (start position : Nat) (feed : Feed) : Prop where
  rest_eq : feed.rest = buffer.drop position
  position_eq : position = start + feed.taken
  le_length : position ≤ buffer.length

/-- The position is that of the feed, and the counter is ahead of the
bytes taken by `lag`. -/
structure Counted (buffer : List UInt8) (start : Nat) (lag : Int) (p : Progress) (feed : Feed) :
    Prop extends Tracks buffer start p.position feed where
  size_eq : (p.size : Int) = feed.taken + lag

section Triples

variable {buffer : List UInt8} {start : Nat} {α β : Type}

/-- Two results without a defect that are the same. -/
inductive Agree (buffer : List UInt8) (start : Nat) (behind : α → Progress → Feed → Prop) :
    EStateM.Result Stop Progress α → EStateM.Result Fault Feed α → Prop where
  | ok {a : α} {p : Progress} {feed : Feed} (h : behind a p feed) :
      Agree buffer start behind (.ok a p) (.ok a feed)
  | fault {fault : Fault} {p : Progress} {feed : Feed}
      (h : Tracks buffer start p.position feed) :
      Agree buffer start behind (.error (.fault fault) p) (.error fault feed)

/-- Run side by side from where `before` holds, the step ends as the reader
does, and `behind` holds of what they leave. -/
def Follows (buffer : List UInt8) (start : Nat) (before : Progress → Feed → Prop) (s : Step α)
    (r : Reader α) (behind : α → Progress → Feed → Prop) : Prop :=
  ∀ p feed, before p feed → Agree buffer start behind (s p) (r feed)

variable {before : Progress → Feed → Prop}

/-- The rule of sequence. -/
theorem Follows.bind {s : Step α} {r : Reader α} {f : α → Step β} {g : α → Reader β}
    {between : α → Progress → Feed → Prop} {behind : β → Progress → Feed → Prop}
    (hs : Follows buffer start before s r between)
    (hf : ∀ a, Follows buffer start (between a) (f a) (g a) behind) :
    Follows buffer start before (s >>= f) (r >>= g) behind := by
  intro p feed h
  have hagree := hs p feed h
  show Agree buffer start behind (EStateM.bind s f p) (EStateM.bind r g feed)
  unfold EStateM.bind
  generalize s p = stepped, r feed = ended at hagree
  cases hagree with
  | ok hbetween => exact hf _ _ _ hbetween
  | fault htracks => exact .fault htracks

theorem follows_pure {behind : α → Progress → Feed → Prop} {a : α}
    (h : ∀ p feed, before p feed → behind a p feed) :
    Follows buffer start before (pure a) (pure a) behind :=
  fun p feed hbefore => .ok (h p feed hbefore)

theorem Follows.map {s : Step α} {r : Reader α} {behind : Progress → Feed → Prop} (f : α → β)
    (hs : Follows buffer start before s r fun _ => behind) :
    Follows buffer start before (f <$> s) (f <$> r) fun _ => behind := by
  rw [← bind_pure_comp, ← bind_pure_comp]
  exact hs.bind fun _ => follows_pure fun _ _ h => h

/-- A step of which the reader has nothing goes in front. -/
theorem Follows.before_reader {s : Step Unit} {t : Step α} {r : Reader α}
    {between : Progress → Feed → Prop} {behind : α → Progress → Feed → Prop}
    (hs : Follows buffer start before s (pure ()) fun _ => between)
    (ht : Follows buffer start between t r behind) :
    Follows buffer start before (s >>= fun _ => t) r behind := by
  rw [← pure_bind () fun _ => r]
  exact hs.bind fun _ => ht

theorem Follows.naming {s : Step α} {r : Reader α} {behind : α → Progress → Feed → Prop}
    (opcode : UInt8) (hs : Follows buffer start before s r behind) :
    Follows buffer start before (naming opcode s) (Reader.naming opcode r) behind := by
  intro p feed h
  have hagree := hs p feed h
  unfold Checked.naming Reader.naming
  generalize s p = stepped, r feed = ended at hagree
  cases hagree with
  | ok hbehind => exact .ok hbehind
  | fault htracks => exact .fault htracks

end Triples

-- =========================================================== primitives

section Primitives

variable {buffer : List UInt8} {start : Nat} {lag : Int} {α : Type}

/-- The byte at the position is the next byte of the feed. -/
theorem Tracks.next {position taken : Nat} {b : UInt8} {rest : List UInt8}
    (h : Tracks buffer start position ⟨b :: rest, taken⟩) :
    buffer[position]? = some b ∧ Tracks buffer start (position + 1) ⟨rest, taken + 1⟩ := by
  have hdrop : b :: rest = buffer.drop position := h.rest_eq
  have hget : buffer[position]? = some b := by
    rw [← Nat.add_zero position, ← List.getElem?_drop, ← hdrop]
    rfl
  have hlt := (List.getElem?_eq_some_iff.mp hget).1
  refine ⟨hget, ?_, ?_, hlt⟩
  · show rest = buffer.drop (position + 1)
    rw [← List.drop_drop, ← hdrop]
    rfl
  · have hposition := h.position_eq
    simp only at hposition ⊢
    omega

theorem Tracks.getElem?_eq_none {position taken : Nat}
    (h : Tracks buffer start position ⟨[], taken⟩) : buffer[position]? = none := by
  have hdrop : [] = buffer.drop position := h.rest_eq
  exact List.getElem?_eq_none (List.drop_eq_nil_iff.mp hdrop.symm)

theorem follows_throw {behind : α → Progress → Feed → Prop} (fault : Fault) :
    Follows buffer start (Counted buffer start lag) (throw (.fault fault)) (throw fault) behind :=
  fun _ _ h => .fault h.toTracks

/-- Reading a byte lowers the lag by one. -/
theorem follows_byte :
    Follows buffer start (Counted buffer start lag) (byte buffer) Reader.byte
      fun _ => Counted buffer start (lag - 1) := by
  rintro p ⟨rest, taken⟩ h
  cases rest with
  | nil =>
      rw [byte, h.getElem?_eq_none]
      exact .fault h.toTracks
  | cons b rest =>
      obtain ⟨hget, hnext⟩ := h.toTracks.next
      rw [byte, hget]
      refine .ok ⟨hnext, ?_⟩
      have hsize := h.size_eq
      simp only at hsize ⊢
      omega

/-- Reading a word lowers the lag by two. The bytes it indexes are there,
since it has compared lengths before. -/
theorem follows_word :
    Follows buffer start (Counted buffer start lag) (word buffer) Reader.word
      fun _ => Counted buffer start (lag - 2) := by
  rintro p ⟨rest, taken⟩ h
  -- what remains is a difference, and the position does not exceed the length
  have hahead : buffer.length - p.position = rest.length := by
    rw [show rest = buffer.drop p.position from h.rest_eq, List.length_drop]
  have hword : word buffer p = if rest.length < 2 then
      .error (.fault (.endOfStream none)) p
      else (do
        let low ← byteAt buffer p.position
        let high ← byteAt buffer (p.position + 1)
        set { p with position := p.position + 2 }
        return littleEndian low high : Step UInt16) p := by
    rw [← hahead]
    show (difference buffer.length p.position >>= _) p = _
    rw [difference_of_le h.le_length, pure_bind]
    split <;> rfl
  rw [hword]
  match rest, h with
  | [], h | [_], h => exact .fault h.toTracks
  | low :: high :: rest, h =>
      obtain ⟨hlow, hbetween⟩ := h.toTracks.next
      obtain ⟨hhigh, hnext⟩ := hbetween.next
      rw [if_neg (by simp), byteAt, hlow, byteAt, hhigh]
      refine .ok ⟨hnext, ?_⟩
      have hsize := h.size_eq
      simp only at hsize ⊢
      omega

variable (hroom : buffer.length + 8 ≤ UInt32.size)

include hroom in
/-- There is room for what is counted, as long as it is not far ahead. -/
theorem follows_count (n : Nat) (h : lag + n ≤ 7) :
    Follows buffer start (Counted buffer start lag) (count n) (pure ())
      fun _ => Counted buffer start (lag + n) := by
  intro p feed hcounted
  have hsize := hcounted.size_eq
  have hposition := hcounted.position_eq
  have hlength := hcounted.le_length
  have hfits : p.size + n < UInt32.size := by omega
  rw [count, if_pos hfits]
  refine .ok ⟨hcounted.toTracks, ?_⟩
  simp only
  omega

end Primitives

-- ================================================================ parts

section Parts

variable {buffer : List UInt8} {start : Nat} {lag : Int}

theorem follows_readDisplacement (m : ModRM) :
    Follows buffer start (Counted buffer start lag) (readDisplacement buffer m) m.readDisplacement
      fun d => Counted buffer start (lag - d.encodedSize) := by
  unfold readDisplacement ModRM.readDisplacement
  cases m.displacementWidth with
  | none =>
      refine follows_pure fun p feed h => ?_
      rwa [show lag - (Displacement.none.encodedSize : Int) = lag from Int.sub_zero lag]
  | byte =>
      simp only [Reader.signedByte, ← bind_pure_comp, bind_assoc, pure_bind]
      exact follows_byte.bind fun _ => follows_pure fun _ _ h => h
  | word =>
      simp only [Reader.signedWord, ← bind_pure_comp, bind_assoc, pure_bind]
      exact follows_word.bind fun _ => follows_pure fun _ _ h => h

variable (hroom : buffer.length + 8 ≤ UInt32.size)

include hroom

/-- The ModRM byte and the displacement are counted when both are read. -/
theorem follows_readModRM :
    Follows buffer start (Counted buffer start 0) (readModRM buffer) ModRM.read
      fun _ => Counted buffer start 0 := by
  refine follows_byte.bind fun b => (follows_readDisplacement ⟨b⟩).bind fun d => ?_
  refine (follows_count hroom (1 + d.encodedSize) (by omega)).before_reader
    (follows_pure fun p feed h => ?_)
  rwa [show (0 - 1 - (d.encodedSize : Int)) + ↑(1 + d.encodedSize) = 0 by omega] at h

/-- A ModRM byte is counted behind its read, so the lag is zero again. -/
theorem follows_readModRMOf (row : Row) :
    Follows buffer start (Counted buffer start 0) (readModRMOf buffer row) row.readModRM
      fun _ => Counted buffer start 0 := by
  unfold readModRMOf Row.readModRM
  split
  · exact follows_readModRM hroom
  · exact follows_pure fun _ _ h => h

/-- An operand that takes the bytes counted in front of it. -/
theorem follows_counted {α : Type} {n : Nat} {s : Step α} {r : Reader α} (hn : n ≤ 7)
    (hs : Follows buffer start (Counted buffer start n) s r fun _ => Counted buffer start 0) :
    Follows buffer start (Counted buffer start 0) (counted n s) r
      fun _ => Counted buffer start 0 := by
  refine (follows_count hroom n (by omega)).before_reader ?_
  rwa [Int.zero_add]

/-- Each operand is counted by as much as it takes. -/
theorem follows_resolve (ctx : OperandContext) (pattern : Pattern) :
    Follows buffer start (Counted buffer start 0) (resolve buffer ctx pattern)
      (pattern.resolve ctx) fun _ => Counted buffer start 0 := by
  have hdone : ∀ listed : List Operand, Follows buffer start (Counted buffer start 0)
      (pure listed) (pure listed) fun _ => Counted buffer start 0 :=
    fun _ => follows_pure fun _ _ h => h
  have hrefused : Follows buffer start (Counted buffer start 0)
      (throw (.fault ctx.invalid)) (throw ctx.invalid)
      fun _ : List Operand => Counted buffer start 0 := follows_throw _
  have hbyte : Follows buffer start (Counted buffer start (1 : Nat)) (byte buffer) Reader.byte
      fun _ => Counted buffer start 0 := follows_byte
  have hword : Follows buffer start (Counted buffer start (2 : Nat)) (word buffer) Reader.word
      fun _ => Counted buffer start 0 := follows_word
  cases pattern with
  | none | rm8 | rm16 | reg8 | reg16 | fixed | implied | external => exact hdone _
  | mem =>
      simp only [resolve, Pattern.resolve]
      cases ctx.memory? .word with
      | none => exact hrefused
      | some m => exact hdone _
  | segment =>
      simp only [resolve, Pattern.resolve]
      cases ctx.modRM.segment? with
      | none => exact hrefused
      | some s => exact hdone _
  | segmentTarget =>
      simp only [resolve, Pattern.resolve]
      cases ctx.modRM.segment? with
      | none => exact hrefused
      | some s =>
          cases s with
          | CS => exact hrefused
          | ES | SS | DS => exact hdone _
  | imm8 | imm8Unsigned =>
      exact follows_counted hroom (by decide) (hbyte.map _)
  | imm16 | imm16Unsigned | offset8 | offset16 =>
      exact follows_counted hroom (by decide) (hword.map _)
  | imm8Extended | rel8 =>
      exact follows_counted hroom (by decide) ((hbyte.map _).map _)
  | rel16 =>
      exact follows_counted hroom (by decide) ((hword.map _).map _)
  | farPointer =>
      -- the only operand that is counted behind its bytes
      refine follows_word.bind fun offset => follows_word.bind fun segment => ?_
      exact (follows_count hroom 4 (by decide)).before_reader (hdone _)

/-- Only rows of two operands exchange them. -/
theorem follows_operands (row : Row) (ctx : OperandContext) :
    Follows buffer start (Counted buffer start 0) (operands buffer row ctx) (row.operands ctx)
      fun _ => Counted buffer start 0 := by
  unfold operands Row.operands
  cases hreverses : row.reversesRegisters && !ctx.modRM.isMemory with
  | false =>
      exact (follows_resolve hroom ctx row.first).bind fun _ =>
        (follows_resolve hroom ctx row.second).bind fun _ => follows_pure fun _ _ h => h
  | true =>
      have hpair : row.first = .reg8 ∧ row.second = .rm8 ∨
          row.first = .reg16 ∧ row.second = .rm16 := by
        have hboth := (Bool.and_eq_true_iff.mp hreverses).1
        simpa [Row.reversesRegisters] using hboth
      -- neither pattern can fail to yield its operand, so two are exchanged
      obtain ⟨hfirst, hsecond⟩ | ⟨hfirst, hsecond⟩ := hpair
      all_goals
        rw [hfirst, hsecond]
        exact follows_pure fun _ _ h => h

end Parts

-- ================================================================= rows

/-- The map has 256 rows for opcodes and eight for each of fifteen groups. -/
theorem length_rows : Row.all.length = 376 := by decide +kernel

/-- The row of an opcode lies at its number. -/
theorem getElem?_all_opcode (opcode : UInt8) :
    Row.all[opcode.toNat]? = some (Row.ofOpcode opcode) := by
  have hlt : opcode.toNat < Row.opcodes.length := by
    rw [Row.length_opcodes]
    exact opcode.toNat_lt
  rw [Row.all, List.getElem?_append_left hlt]
  exact List.getElem?_eq_getElem hlt

/-- The groups follow in the order of their numbers, eight rows each. -/
theorem getElem?_all_group (g : Group) (extension : Fin 8) :
    Row.all[256 + (g.number - 1) * 8 + extension.val]? = some (g.row extension) := by
  have hplace : (Group.all.flatMap fun g => g.rows.toList)[(g.number - 1) * 8 + extension.val]?
      = some (g.row extension) := by
    revert extension
    cases g <;> decide +kernel
  have hbehind : Row.opcodes.length ≤ 256 + (g.number - 1) * 8 + extension.val := by
    rw [Row.length_opcodes]
    omega
  rw [Row.all, List.getElem?_append_right hbehind, Row.length_opcodes, Nat.add_assoc,
    Nat.add_sub_cancel_left, hplace]

/-- To look a row up is no defect where there is one. -/
theorem rowAt_of_getElem? {index : Nat} {row : Row} (h : Row.all[index]? = some row) :
    rowAt index = pure row := by
  rw [rowAt, h]

section Select

variable {buffer : List UInt8} {start : Nat} {opcode : UInt8} {prefixes : Prefixes}

/-- A row of its own is checked before a ModRM byte is read. -/
theorem readBody_of_plain (hgroup : (Row.ofOpcode opcode).group = none) :
    readBody buffer start prefixes opcode
      = if (Row.ofOpcode opcode).mnemonic = .invalid then throw (.fault (.unknownOpcode opcode))
        else readModRMOf buffer (Row.ofOpcode opcode) >>=
          complete buffer start prefixes opcode (Row.ofOpcode opcode) := by
  rw [readBody, selectRow, rowAt_of_getElem? (getElem?_all_opcode opcode), pure_bind, hgroup]
  rfl

/-- A row of a group is found by the ModRM byte, and checked behind it. -/
theorem readBody_of_group {g : Group} (hgroup : (Row.ofOpcode opcode).group = some g) :
    readBody buffer start prefixes opcode
      = readModRM buffer >>= fun head =>
          if (g.row head.1.reg).mnemonic = .invalid then throw (.fault (.unknownOpcode opcode))
          else complete buffer start prefixes opcode (g.row head.1.reg) head := by
  have hplace : difference g.number 1 = pure (g.number - 1) :=
    difference_of_le (Nat.le_add_left 1 _)
  rw [readBody, selectRow, rowAt_of_getElem? (getElem?_all_opcode opcode), pure_bind, hgroup]
  simp only [hplace, pure_bind, rowAt_of_getElem? (getElem?_all_group g _), bind_assoc]

/-- An opcode without an operation has no ModRM byte to be read first. -/
theorem hasModRM_of_unassigned (hgroup : (Row.ofOpcode opcode).group = none)
    (hrow : (Row.ofOpcode opcode).mnemonic = .invalid) :
    (Row.ofOpcode opcode).hasModRM = false := by
  have hlaw := Row.every_entry (fun _ _ row => decide (row.mnemonic ≠ .invalid) || !row.hasModRM)
    (by decide +kernel) opcode 0
  rw [Row.entry, hgroup] at hlaw
  simpa [hrow] using hlaw

end Select

-- ============================================================== readings

section Readings

variable {buffer : List UInt8} {start : Nat}

/-- With nothing ahead or behind, the bytes counted are the bytes taken. -/
theorem follows_measured :
    Follows buffer start (Counted buffer start 0) (measured start) Reader.taken
      fun _ => Counted buffer start 0 := by
  intro p feed h
  have hposition := h.position_eq
  have hsize := h.size_eq
  have hcounted : p.position - start = p.size := by omega
  have htaken : p.size = feed.taken := by omega
  have hmeasured : measured start p = .ok feed.taken p := by
    show (difference p.position start >>= _) p = _
    rw [difference_of_le (by omega), pure_bind, if_pos hcounted, htaken]
    rfl
  rw [hmeasured]
  exact .ok h

/-- The opcode behind a run of prefixes, and what the run adds to the
prefixes found before it. -/
def opening (prefixes : Prefixes) : Reader (Prefixes × UInt8) := do
  let run ← Reader.run Prefix.isByte
  let opcode ← Reader.byte
  return ((run.filterMap Prefix.ofByte?).foldl Prefixes.insert prefixes, opcode)

/-- A prefix is gathered, and the search goes on behind it. -/
theorem opening_of_found {prefixes : Prefixes} {found : Prefix} {b : UInt8}
    (h : Prefix.ofByte? b = some found) (rest : List UInt8) (taken : Nat) :
    opening prefixes ⟨b :: rest, taken⟩ = opening (prefixes.insert found) ⟨rest, taken + 1⟩ := by
  have hbyte : Prefix.isByte b = true := by rw [Prefix.isByte, h]; rfl
  have hrun : Reader.run Prefix.isByte ⟨b :: rest, taken⟩
      = .ok (b :: rest.takeWhile Prefix.isByte) ⟨rest.dropWhile Prefix.isByte,
          taken + 1 + (rest.takeWhile Prefix.isByte).length⟩ := by
    simp only [Reader.run, List.takeWhile_cons_of_pos hbyte, List.dropWhile_cons_of_pos hbyte,
      List.length_cons]
    rw [Nat.add_right_comm, Nat.add_assoc]
  rw [opening, Reader.bind_of_ok _ hrun, List.filterMap_cons_some h, List.foldl_cons]
  rfl

/-- The first byte that is no prefix is the opcode. -/
theorem opening_of_not_found {prefixes : Prefixes} {b : UInt8} (h : Prefix.ofByte? b = none)
    (rest : List UInt8) (taken : Nat) :
    opening prefixes ⟨b :: rest, taken⟩ = .ok (prefixes, b) ⟨rest, taken + 1⟩ := by
  have hbyte : ¬Prefix.isByte b = true := by rw [Prefix.isByte, h]; decide
  have hrun : Reader.run Prefix.isByte ⟨b :: rest, taken⟩ = .ok [] ⟨b :: rest, taken⟩ := by
    simp only [Reader.run, List.takeWhile_cons_of_neg hbyte, List.dropWhile_cons_of_neg hbyte]
    rfl
  rw [opening, Reader.bind_of_ok _ hrun]
  rfl

variable (hroom : buffer.length + 8 ≤ UInt32.size)

include hroom

/-- With a lag of zero, the bytes counted are those taken. -/
theorem follows_complete (prefixes : Prefixes) (opcode : UInt8) (row : Row)
    (head : ModRM × Displacement) :
    Follows buffer start (Counted buffer start 0)
      (complete buffer start prefixes opcode row head)
      (do
        let operands ← row.operands
          { opcode, modRM := head.1, displacement := head.2, override := prefixes.segment? }
        let length ← Reader.taken
        return { opcode, length, mnemonic := row.mnemonic, width := row.width, operands, prefixes })
      fun _ => Counted buffer start 0 :=
  (follows_operands hroom row _).bind fun _ =>
    follows_measured.bind fun _ => follows_pure fun _ _ h => h

/-- The row is found in the map, whether the ModRM byte is needed for it or
not. -/
theorem follows_readBody (prefixes : Prefixes) (opcode : UInt8) :
    Follows buffer start (Counted buffer start 0) (readBody buffer start prefixes opcode)
      (Instruction.readBody prefixes opcode) fun _ => Counted buffer start 0 := by
  unfold Instruction.readBody
  cases hgroup : (Row.ofOpcode opcode).group with
  | none =>
      rw [readBody_of_plain hgroup]
      simp only [Row.select, hgroup]
      by_cases hrow : (Row.ofOpcode opcode).mnemonic = .invalid
      · -- the reader asks for the ModRM byte first, which makes no difference here
        rw [Row.readModRM, hasModRM_of_unassigned hgroup hrow, if_pos hrow]
        simp only [hrow]
        exact follows_throw _
      · simp only [if_neg hrow]
        exact (follows_readModRMOf hroom _).bind (follows_complete hroom prefixes opcode _)
  | some g =>
      have hread : (Row.ofOpcode opcode).readModRM = ModRM.read := by
        rw [Row.readModRM, Row.hasModRM, hgroup]
        rfl
      rw [readBody_of_group hgroup, hread]
      refine (follows_readModRM hroom).bind fun head => ?_
      simp only [Row.select, hgroup]
      split
      · exact follows_throw _
      · exact follows_complete hroom prefixes opcode _ head

/-- The loop over the prefixes is the run of them. -/
theorem follows_readOpcode (prefixes : Prefixes) :
    Follows buffer start (Counted buffer start 0) (readOpcode buffer prefixes) (opening prefixes)
      fun _ => Counted buffer start 0 := by
  rintro p ⟨rest, taken⟩ h
  -- along the bytes ahead: each prefix is one more round
  induction rest generalizing prefixes p taken with
  | nil =>
      rw [readOpcode, h.getElem?_eq_none]
      exact .fault h.toTracks
  | cons b rest ih =>
      obtain ⟨hget, hnext⟩ := h.toTracks.next
      have hsize := h.size_eq
      have hposition := hnext.position_eq
      have hlength := hnext.le_length
      simp only at hsize hposition
      have hcounted : Counted buffer start 0 ⟨p.position + 1, p.size + 1⟩ ⟨rest, taken + 1⟩ :=
        ⟨hnext, by simp only; omega⟩
      rw [readOpcode, hget]
      simp only
      rw [if_pos (by omega)]
      cases hprefix : Prefix.ofByte? b with
      | none =>
          rw [opening_of_not_found hprefix]
          exact .ok hcounted
      | some found =>
          rw [opening_of_found hprefix]
          exact ih (prefixes.insert found) _ _ hcounted

theorem follows_read :
    Follows buffer start (Counted buffer start 0) (read buffer start) Instruction.read
      fun _ => Counted buffer start 0 := by
  have hread : Instruction.read = opening .empty >>= fun found =>
      Reader.naming found.2 (Instruction.readBody found.1 found.2) := by
    simp only [Instruction.read, opening, bind_assoc, pure_bind]
    rfl
  rw [hread]
  exact (follows_readOpcode hroom .empty).bind fun found =>
    (follows_readBody hroom found.1 found.2).naming found.2

end Readings

/-- Where a cursor stands, nothing is counted yet. -/
theorem counted_start (c : Cursor) :
    Counted c.buffer c.position 0 ⟨c.position, 0⟩ (.ofBytes c.rest) :=
  ⟨⟨c.rest_eq, rfl, c.position_le⟩, rfl⟩

/-- The checked decoder meets no defect, and it decodes as the decoder
does. -/
theorem decode_eq (c : Cursor) (hroom : c.buffer.length + 8 ≤ UInt32.size) :
    decode c.buffer c.position = .ok (c.decode.1, c.decode.2.position) := by
  have hagree := follows_read hroom _ _ (counted_start c)
  unfold decode
  cases hread : Instruction.read (.ofBytes c.rest) with
  | ok i feed =>
      rw [hread] at hagree
      rw [Cursor.decode_of_read_ok hread]
      generalize read c.buffer c.position ⟨c.position, 0⟩ = stepped at hagree
      cases hagree with
      | ok hbehind => simp only [hbehind.position_eq, Cursor.advance]
  | error fault feed =>
      rw [hread] at hagree
      rw [Cursor.decode_of_read_error hread]
      generalize read c.buffer c.position ⟨c.position, 0⟩ = stepped at hagree
      cases hagree with
      | fault htracks => simp only [htracks.position_eq, Cursor.advance]

end Checked

-- ========================================================= the statement

section Exact

variable {c next : Cursor}

/-- A stream that ends too early is used up, or a word of it is missing
its high byte. -/
theorem length_rest_le_of_truncation {bytes : List UInt8} {fault : Fault} {behind : Feed}
    (h : Instruction.read (.ofBytes bytes) = .error fault behind)
    (hfault : fault.isTruncation = true) : behind.rest.length ≤ 1 := by
  have hreading := reading_read bytes
  rw [h] at hreading
  cases hreading with
  | exhausted => exact Nat.zero_le 1
  | shortHead _ _ hnext => exact hnext
  | shortField _ _ _ _ hnext => exact hnext
  | unassigned => cases hfault
  | refused => cases hfault

/-- A decoded instruction lies ahead, and the cursor moves to its end. -/
theorem Cursor.eq_advance_of_decode_ok {i : Instruction} (h : c.decode = (.ok i, next)) :
    ∃ hle : i.length ≤ c.remaining, 1 ≤ i.length ∧ next = c.advance i.length hle := by
  cases hread : Instruction.read (.ofBytes c.rest) with
  | error fault behind =>
      rw [decode_of_read_error hread] at h
      cases h
  | ok j behind =>
      obtain ⟨l, rest, -, rfl, rfl⟩ := exists_layout_of_read_ok hread
      rw [decode_of_read_ok hread] at h
      cases h
      exact ⟨Reader.taken_le_of_ok hread, l.length_bytes_pos, rfl⟩

/-- An error lies where decoding started, and the cursor moves to where the
fault was found. -/
theorem Cursor.exists_advance_of_decode_error {e : DecodeError}
    (h : c.decode = (.error e, next)) :
    e.offset = c.position ∧ ∃ (n : Nat) (hle : n ≤ c.remaining), next = c.advance n hle
      ∧ (e.isTruncation = true → next.remaining ≤ 1) := by
  cases hread : Instruction.read (.ofBytes c.rest) with
  | ok j behind =>
      rw [decode_of_read_ok hread] at h
      cases h
  | error fault behind =>
      have hrest := rest_advance_of_read_error hread
      rw [decode_of_read_error hread] at h
      cases h
      refine ⟨rfl, behind.taken, Reader.taken_le_of_error hread, rfl, fun htruncated => ?_⟩
      rw [remaining, hrest]
      exact length_rest_le_of_truncation hread htruncated

end Exact

/-- Decoding at any position of a buffer is exact and meets no defect: no
row is looked up outside of the map, no operands are exchanged that are
not there, no count leaves its 32 bits. An instruction ends where the
position moves to. An error is reported where decoding started, the
position stays in the buffer, and at a truncated stream it is at most one
byte from the end. -/
theorem decode_exact_without_defect (c : Cursor) (hroom : c.buffer.length + 8 ≤ UInt32.size) :
    Row.all.length = 376
      ∧ Checked.decode c.buffer c.position = .ok (c.decode.1, c.decode.2.position)
      ∧ (∀ i next, c.decode = (.ok i, next) →
          next.position = c.position + i.length ∧ 1 ≤ i.length
            ∧ c.position + i.length ≤ c.buffer.length)
      ∧ ∀ e next, c.decode = (.error e, next) →
          e.offset = c.position ∧ c.position ≤ next.position ∧ next.position ≤ c.buffer.length
            ∧ (e.isTruncation = true → c.buffer.length ≤ next.position + 1) := by
  refine ⟨Checked.length_rows, Checked.decode_eq c hroom, fun i next h => ?_, fun e next h => ?_⟩
  · obtain ⟨hle, hpos, rfl⟩ := Cursor.eq_advance_of_decode_ok h
    exact ⟨rfl, hpos, (c.advance i.length hle).position_le⟩
  · obtain ⟨hoffset, n, hle, rfl, htruncated⟩ := Cursor.exists_advance_of_decode_error h
    refine ⟨hoffset, Nat.le_add_right _ _, (c.advance n hle).position_le, fun htruncation => ?_⟩
    have hend := (c.advance n hle).position_add_remaining
    have hahead := htruncated htruncation
    replace hend : (c.advance n hle).position + (c.advance n hle).remaining = c.buffer.length :=
      hend
    omega

/-- A move between registers, of which the row lists the operands the
other way round, and a test of which the constant is cut. -/
theorem decode_exact_without_defect_of_move_and_test :
    (∃ i : Instruction, i.operands = [.register .BX, .register .AX] ∧ i.length = 3
        ∧ Checked.decode [0x2E, 0x8B, 0xC3, 0xF7, 0x87, 0x34, 0x12, 0xCD] 0
            = .ok (.ok i, 0 + i.length)
        ∧ 0 + i.length ≤ 8)
      ∧ Checked.decode [0x2E, 0x8B, 0xC3, 0xF7, 0x87, 0x34, 0x12, 0xCD] 3
          = .ok (.error ⟨3, .endOfStream (some 0xF7)⟩, 7)
      ∧ 8 ≤ 7 + 1 := by
  let c : Cursor := .ofBytes [0x2E, 0x8B, 0xC3, 0xF7, 0x87, 0x34, 0x12, 0xCD]
  let behind : Cursor := c.advance 3 (by decide)
  have hmove : c.decode = (.ok
      { opcode := 0x8B, length := 3, mnemonic := .MOV, width := .word
        operands := [.register .BX, .register .AX], prefixes := ⟨0x008⟩ }, behind) := by
    decide +kernel
  have htest : behind.decode
      = (.error ⟨3, .endOfStream (some 0xF7)⟩, c.advance 7 (by decide)) := by
    decide +kernel
  obtain ⟨-, hdecode, hok, -⟩ := decode_exact_without_defect c (by decide)
  obtain ⟨-, hfailed, -, herror⟩ := decode_exact_without_defect behind (by decide)
  rw [hmove] at hdecode
  rw [htest] at hfailed
  exact ⟨⟨_, rfl, rfl, hdecode, (hok _ _ hmove).2.2⟩, hfailed, (herror _ _ htest).2.2.2 rfl⟩

end Disasm8086
