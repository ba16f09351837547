/-
A position in a buffer of bytes. A cursor is moved by readers: to the
end of what they took, also when they fail. A failed read is reported
at the position at which it failed, a failed instruction at the position
at which it started.

A cursor carries the proof that it stands in its buffer, so it can only
be moved ahead by bytes that are there.
-/
import Disasm8086.Decode

namespace Disasm8086

/-- A buffer, a position in it, and the bytes from that position on. -/
structure Cursor where
  buffer : List UInt8
  position : Nat
  /-- The bytes ahead, at hand for the next read. -/
  rest : List UInt8
  position_le : position ≤ buffer.length
  rest_eq : rest = buffer.drop position
  deriving DecidableEq, Repr

namespace Cursor

/-- A cursor at the start of a buffer. -/
def ofBytes (bytes : List UInt8) : Cursor := ⟨bytes, 0, bytes, Nat.zero_le _, rfl⟩

@[simp] theorem rest_ofBytes (bytes : List UInt8) : (ofBytes bytes).rest = bytes := rfl

/-- How many bytes lie ahead. -/
def remaining (c : Cursor) : Nat := c.rest.length

/-- Whether no byte lies ahead. -/
def isExhausted (c : Cursor) : Bool := c.rest.isEmpty

/-- The next byte, left in place. -/
def peek? (c : Cursor) : Option UInt8 := c.rest.head?

/-- The bytes of the buffer from `start` up to `stop`, as far as the
buffer has them. -/
def slice (c : Cursor) (start stop : Nat) : List UInt8 :=
  (c.buffer.take stop).drop start

/-- What is behind a cursor and what is ahead make up the buffer. -/
theorem position_add_remaining (c : Cursor) : c.position + c.remaining = c.buffer.length := by
  rw [remaining, c.rest_eq, List.length_drop, Nat.add_sub_cancel' c.position_le]

/-- A cursor is given by its buffer and its position. -/
theorem eq_of_position {c d : Cursor} (hbuffer : c.buffer = d.buffer)
    (hposition : c.position = d.position) : c = d := by
  have hrest : c.rest = d.rest := by rw [c.rest_eq, d.rest_eq, hbuffer, hposition]
  cases c
  cases d
  simp_all only

-- ============================================================== moving

/-- Moves forward by `n` bytes that lie ahead. -/
def advance (c : Cursor) (n : Nat) (h : n ≤ c.remaining) : Cursor where
  buffer := c.buffer
  position := c.position + n
  rest := c.rest.drop n
  position_le := by
    rw [← c.position_add_remaining]
    exact Nat.add_le_add_left h _
  rest_eq := by rw [c.rest_eq, List.drop_drop]

/-- How far a cursor moves may be given in any form. -/
theorem advance_congr {c : Cursor} {m n : Nat} (h : m = n) (hm : m ≤ c.remaining) :
    c.advance m hm = c.advance n (h ▸ hm) := by
  subst h
  rfl

/-- Runs a reader on the bytes ahead. -/
def read {α : Type} (r : Reader α) [Reader.Advances r] (c : Cursor) :
    Except DecodeError α × Cursor :=
  match h : r (.ofBytes c.rest) with
  | .ok a feed => (.ok a, c.advance feed.taken (Reader.taken_le_of_ok h))
  | .error fault feed =>
    (.error ⟨c.position + feed.taken, fault⟩, c.advance feed.taken (Reader.taken_le_of_error h))

/-- Decodes the next instruction. -/
def decode (c : Cursor) : Except DecodeError Instruction × Cursor :=
  match c.read Instruction.read with
  | (.ok i, next) => (.ok i, next)
  | (.error e, next) => (.error { e with offset := c.position }, next)

section Reading

variable {α : Type} {r : Reader α} [Reader.Advances r] {c : Cursor} {fault : Fault} {next : Feed}

/-- A cursor moves to the end of what a reader took. -/
theorem read_of_ok {a : α} (h : r (.ofBytes c.rest) = .ok a next) :
    c.read r = (.ok a, c.advance next.taken (Reader.taken_le_of_ok h)) := by
  unfold read
  split
  case h_1 hread =>
    rw [h] at hread
    cases hread
    rfl
  case h_2 hread =>
    rw [h] at hread
    cases hread

/-- Also where it fails, and there the error is reported. -/
theorem read_of_error (h : r (.ofBytes c.rest) = .error fault next) :
    c.read r = (.error ⟨c.position + next.taken, fault⟩,
      c.advance next.taken (Reader.taken_le_of_error h)) := by
  unfold read
  split
  case h_1 hread =>
    rw [h] at hread
    cases hread
  case h_2 hread =>
    rw [h] at hread
    cases hread
    rfl

/-- The cursor moves to the end of the instruction. -/
theorem decode_of_read_ok {i : Instruction} (h : Instruction.read (.ofBytes c.rest) = .ok i next) :
    c.decode = (.ok i, c.advance next.taken (Reader.taken_le_of_ok h)) := by
  rw [decode, read_of_ok h]

/-- A fault is reported where the instruction starts, not where it is
found. -/
theorem decode_of_read_error (h : Instruction.read (.ofBytes c.rest) = .error fault next) :
    c.decode = (.error ⟨c.position, fault⟩,
      c.advance next.taken (Reader.taken_le_of_error h)) := by
  rw [decode, read_of_error h]

end Reading

/-- Decoding an instruction leaves fewer bytes ahead. -/
theorem length_rest_lt_of_decode_ok {c next : Cursor} {i : Instruction}
    (h : c.decode = (.ok i, next)) : next.rest.length < c.rest.length := by
  cases hread : Instruction.read (.ofBytes c.rest) with
  | error fault feed =>
      rw [decode_of_read_error hread] at h
      cases h
  | ok j feed =>
      have htaken : 0 < feed.taken := Instruction.taken_lt_of_read_ok hread
      have hle := Reader.taken_le_of_ok hread
      rw [decode_of_read_ok hread, Prod.mk.injEq] at h
      rw [← h.2]
      show (c.rest.drop feed.taken).length < c.rest.length
      rw [List.length_drop]
      omega

end Cursor

/-- Decodes the instruction at the start of the bytes. -/
def decodeNext (bytes : List UInt8) : Except DecodeError Instruction :=
  (Cursor.ofBytes bytes).decode.1

end Disasm8086
