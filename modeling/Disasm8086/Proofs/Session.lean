/-
Working with one cursor, request after request. A session asks for
numbers, for a look at the next byte, for slices of the buffer, for ModRM
bytes, displacements and instructions, in any order. A request may fail,
at once or behind some of its bytes, and the session goes on from there.
Whatever is asked, the cursor stays in its buffer and does not go back,
and each request keeps its promise (`session_keeps_cursor_in_buffer`).

# The argument

A request moves the cursor ahead, by no more than the bytes that are left,
also where it fails (`Cursor.exists_advance_perform`). This alone carries
the invariant along a session. Numbers and displacements are moreover
taken as a whole or not at all (`Reader.Whole`), so a failure among them
leaves the cursor where it was; a ModRM byte and its displacement are two
such reads, and the second may fail behind the first.

A cursor has the bytes ahead at hand, so it cannot count them wrong. The
checked requests have a buffer and a position alone: they subtract, they
take bytes by position and they cut ranges out of the buffer, and each of
these is a defect where the numbers are out of order. They answer as the
cursor does because the cursor stays in its buffer.
-/
import Disasm8086.Proofs.BranchTarget
import Disasm8086.Proofs.Relocation

namespace Disasm8086

open Reader

-- ============================================================= numbers

/-- Bytes as a number, the least significant first. -/
def unsignedNumber (bytes : List UInt8) : Int :=
  (Nat.ofDigits 256 (bytes.map UInt8.toNat) : Nat)

/-- The reads of a single number. -/
inductive Scalar where
  | byte
  | signedByte
  | word
  | signedWord
  deriving DecidableEq, Repr

namespace Scalar

/-- The type of the number. -/
abbrev Value : Scalar → Type
  | .byte => UInt8
  | .signedByte => Int8
  | .word => UInt16
  | .signedWord => Int16

/-- How many bytes the number takes. -/
def size : Scalar → Nat
  | .byte | .signedByte => 1
  | .word | .signedWord => 2

/-- The reader of the number. -/
def reader : (s : Scalar) → Reader s.Value
  | .byte => Reader.byte
  | .signedByte => Reader.signedByte
  | .word => Reader.word
  | .signedWord => Reader.signedWord

/-- The number that a value is. -/
def number : (s : Scalar) → s.Value → Int
  | .byte, b => b.toNat
  | .signedByte, b => b.toInt
  | .word, w => w.toNat
  | .signedWord, w => w.toInt

/-- The number that bytes stand for. -/
def numberOf : Scalar → List UInt8 → Int
  | .byte | .word => unsignedNumber
  | .signedByte | .signedWord => signedNumber

/-- What is made of a field of the right size. -/
def valueOf : (s : Scalar) → List UInt8 → s.Value
  | .byte, field => byteOf field
  | .signedByte, field => (byteOf field).toInt8
  | .word, field => wordOf field
  | .signedWord, field => (wordOf field).toInt16

/-- The value made of a field is the number that its bytes stand for. -/
theorem number_valueOf (s : Scalar) {field : List UInt8} (h : field.length = s.size) :
    s.number (s.valueOf field) = s.numberOf field := by
  cases s with
  | byte =>
      obtain ⟨b, rfl⟩ := List.length_eq_one_iff.mp h
      show (b.toNat : Int) = unsignedNumber [b]
      rw [unsignedNumber, List.map_singleton, Nat.ofDigits_singleton]
  | signedByte =>
      have hbyte := toInt_toInt16_byteOf h
      rwa [Int8.toInt_toInt16] at hbyte
  | word =>
      show ((wordOf field).toNat : Int) = unsignedNumber field
      rw [unsignedNumber, toNat_wordOf h]
  | signedWord => exact toInt_toInt16_wordOf h

end Scalar

-- ============================================================ requests

/-- What a cursor can be asked for. -/
inductive Request where
  | scalar (s : Scalar)
  | peek
  | slice (start stop : Nat)
  | instruction
  | modRM
  | displacement (m : ModRM)
  deriving DecidableEq, Repr

/-- What is given for a request. A displacement, with or without its ModRM
byte, comes with the number of bytes read. -/
abbrev Request.Value : Request → Type
  | .scalar s => s.Value
  | .peek => Option UInt8
  | .slice _ _ => List UInt8
  | .instruction => Instruction
  | .modRM => ModRM × Displacement × Nat
  | .displacement _ => Displacement × Nat

instance Scalar.advances_reader (s : Scalar) : Advances s.reader := by
  cases s with
  | byte => exact advances_byte
  | signedByte => exact advances_signedByte
  | word => exact advances_word
  | signedWord => exact advances_signedWord

/-- A request that was made of a cursor: the answer, and the cursor left. -/
structure Turn where
  before : Cursor
  request : Request
  answer : Except DecodeError request.Value
  behind : Cursor

namespace Cursor

/-- What a cursor answers, and where it is left. -/
def perform (c : Cursor) : (r : Request) → Except DecodeError r.Value × Cursor
  | .scalar s => c.read s.reader
  | .peek => (.ok c.peek?, c)
  | .slice start stop => (.ok (c.slice start stop), c)
  | .instruction => c.decode
  | .modRM => c.read ModRM.readSized
  | .displacement m => c.read m.readSizedDisplacement

/-- A request, made of the cursor. -/
def turn (c : Cursor) (r : Request) : Turn := ⟨c, r, (c.perform r).1, (c.perform r).2⟩

/-- The turns of a session, each from where the one before has led. -/
def turns (c : Cursor) : List Request → List Turn
  | [] => []
  | r :: later => c.turn r :: (c.turn r).behind.turns later

end Cursor

-- ===================================================== checked requests

namespace Checked

/-- How many bytes are left, by subtraction. -/
def remaining (buffer : List UInt8) (position : Nat) : Except Defect Nat :=
  if buffer.length < position then .error .underflow else .ok (buffer.length - position)

section Requests

variable (buffer : List UInt8)

/-- The bytes from `start` up to `stop`, which are in order and in the
buffer. -/
def range (start stop : Nat) : Step (List UInt8) :=
  if start ≤ stop ∧ stop ≤ buffer.length then pure ((buffer.drop start).take (stop - start))
  else throw (.defect .outsideBuffer)

/-- A range of which both ends are first moved into the buffer. -/
def slice (start stop : Nat) : Step (List UInt8) :=
  range buffer (min start (min stop buffer.length)) (min stop buffer.length)

/-- Takes a single number. -/
def scalar : (s : Scalar) → Step s.Value
  | .byte => byte buffer
  | .signedByte => UInt8.toInt8 <$> byte buffer
  | .word => word buffer
  | .signedWord => UInt16.toInt16 <$> word buffer

/-- A ModRM byte and its displacement, outside of an instruction. -/
def modRM : Step (ModRM × Displacement × Nat) := do
  let m : ModRM := ⟨← byte buffer⟩
  let displacement ← readDisplacement buffer m
  return (m, displacement, displacement.encodedSize + 1)

end Requests

/-- The answer of a step at a position, and the position behind. An error
is reported at the position at which it occurred. -/
def observe {α : Type} (s : Step α) (position : Nat) :
    Except Defect (Except DecodeError α × Nat) :=
  match s ⟨position, 0⟩ with
  | .ok a p => .ok (.ok a, p.position)
  | .error (.fault fault) p => .ok (.error ⟨p.position, fault⟩, p.position)
  | .error (.defect defect) _ => .error defect

/-- What is answered at a position of the buffer, and the position behind. -/
def perform (buffer : List UInt8) (position : Nat) :
    (r : Request) → Except Defect (Except DecodeError r.Value × Nat)
  | .scalar s => observe (scalar buffer s) position
  | .peek => .ok (.ok buffer[position]?, position)
  | .slice start stop => observe (slice buffer start stop) position
  | .instruction => decode buffer position
  | .modRM => observe (modRM buffer) position
  | .displacement m =>
    observe ((fun d => (d, d.encodedSize)) <$> readDisplacement buffer m) position

end Checked

-- ============================================ what a session may expect

/-- The cursor stands in the buffer: what is behind it and what is ahead
of it make up the buffer, and it is exhausted exactly at the end. -/
structure Cursor.Within (buffer : List UInt8) (c : Cursor) : Prop where
  buffer_eq : c.buffer = buffer
  position_le : c.position ≤ buffer.length
  position_add_remaining : c.position + c.remaining = buffer.length
  isExhausted_iff : c.isExhausted = true ↔ c.remaining = 0
  remaining_eq_zero_iff : c.remaining = 0 ↔ buffer.length ≤ c.position
  checked_remaining : Checked.remaining buffer c.position = .ok c.remaining

/-- What a request promises: of the answer, and of where it leaves the
cursor. -/
def Request.Promise (c : Cursor) : (r : Request) → Except DecodeError r.Value × Cursor → Prop
  | .scalar s, (.ok v, next) =>
    -- the number in exactly the next bytes, all of which are there
    (∃ h : s.size ≤ c.remaining, next = c.advance s.size h)
      ∧ s.number v = s.numberOf ((c.buffer.drop c.position).take s.size)
  | .scalar s, (.error e, next) =>
    c.remaining < s.size ∧ next = c ∧ e = ⟨c.position, .endOfStream none⟩
  | .peek, (found, next) => next = c ∧ found = .ok c.buffer[c.position]?
  | .slice start stop, (found, next) =>
    next = c ∧ ∃ bytes, found = .ok bytes
      ∧ ∀ k, bytes[k]? = if start + k < stop then c.buffer[start + k]? else none
  | .instruction, (.ok i, next) =>
    1 ≤ i.length ∧ ∃ h : i.length ≤ c.remaining, next = c.advance i.length h
  | .instruction, (.error e, _) => e.offset = c.position
  | .modRM, (.ok (m, _, size), next) =>
    c.buffer[c.position]? = some m.byte ∧ size = m.displacementSize + 1
      ∧ ∃ h : size ≤ c.remaining, next = c.advance size h
  | .modRM, (.error e, next) =>
    -- a ModRM byte that is there has been taken, but its displacement is cut
    (∀ b, c.buffer[c.position]? = some b → c.remaining < (ModRM.mk b).displacementSize + 1)
      ∧ next = c.advance (min 1 c.remaining) (Nat.min_le_right _ _)
      ∧ e = ⟨next.position, .endOfStream none⟩
  | .displacement m, (.ok (_, size), next) =>
    size = m.displacementSize ∧ ∃ h : size ≤ c.remaining, next = c.advance size h
  | .displacement m, (.error e, next) =>
    c.remaining < m.displacementSize ∧ next = c ∧ e = ⟨c.position, .endOfStream none⟩

-- ========================================================= whole fields

namespace Reader

variable {α β : Type} {size : Nat}

/-- The reader takes a field of fixed size, or nothing at all where the
bytes are too few. -/
structure Whole (r : Reader α) (size : Nat) (value : List UInt8 → α) : Prop
    extends Fixed r size value where
  unmoved : ∀ (bytes : List UInt8) (n : Nat), bytes.length < size →
    r ⟨bytes, n⟩ = .error (.endOfStream none) ⟨bytes, n⟩

theorem whole_pure (a : α) : Whole (pure a) 0 fun _ => a where
  toFixed := fixed_pure a
  unmoved _ _ h := absurd h (Nat.not_lt_zero _)

theorem whole_byte : Whole byte 1 byteOf where
  toFixed := fixed_byte
  unmoved bytes n h := by
    rw [List.length_eq_zero_iff.mp (Nat.lt_one_iff.mp h)]
    rfl

/-- Of a word that is cut, nothing is taken. -/
theorem whole_word : Whole word 2 wordOf where
  toFixed := fixed_word
  unmoved bytes n h := by
    match bytes, h with
    | [], _ => rfl
    | [_], _ => rfl

/-- A whole field is read, or it is not there and nothing is. -/
theorem Whole.cases {r : Reader α} {value : List UInt8 → α} (hr : Whole r size value)
    (bytes : List UInt8) (n : Nat) :
    (size ≤ bytes.length
        ∧ r ⟨bytes, n⟩ = .ok (value (bytes.take size)) ⟨bytes.drop size, n + size⟩)
      ∨ (bytes.length < size ∧ r ⟨bytes, n⟩ = .error (.endOfStream none) ⟨bytes, n⟩) := by
  by_cases hsize : size ≤ bytes.length
  · have htake : (bytes.take size).length = size := List.length_take_of_le hsize
    have hread := hr.ok (bytes.take size) (bytes.drop size) n htake
    rw [List.take_append_drop] at hread
    exact .inl ⟨hsize, hread⟩
  · have hshort : bytes.length < size := Nat.not_le.mp hsize
    exact .inr ⟨hshort, hr.unmoved bytes n hshort⟩

/-- What is made of a value does not change what is taken. -/
theorem Whole.map {r : Reader α} {value : List UInt8 → α} (f : α → β) (hr : Whole r size value) :
    Whole (f <$> r) size fun field => f (value field) where
  toFixed := fixed_map f hr.toFixed
  unmoved bytes n h := by
    rw [← bind_pure_comp]
    exact bind_of_error _ (hr.unmoved bytes n h)

end Reader

/-- Numbers are whole fields. -/
theorem Scalar.whole_reader (s : Scalar) : Whole s.reader s.size s.valueOf := by
  cases s with
  | byte => exact whole_byte
  | signedByte => exact whole_byte.map _
  | word => exact whole_word
  | signedWord => exact whole_word.map _

namespace ModRM

/-- Once the ModRM byte is known, its displacement is a whole field. -/
theorem whole_readDisplacement (m : ModRM) :
    Whole m.readDisplacement m.displacementSize m.displacementOf := by
  unfold readDisplacement displacementSize displacementOf
  cases m.displacementWidth with
  | none => exact whole_pure _
  | byte => exact (whole_byte.map _).map _
  | word => exact (whole_word.map _).map _

theorem whole_readSizedDisplacement (m : ModRM) :
    Whole m.readSizedDisplacement m.displacementSize
      fun field => (m.displacementOf field, (m.displacementOf field).encodedSize) :=
  m.whole_readDisplacement.map fun d : Displacement => (d, d.encodedSize)

/-- A ModRM byte is read, and then a whole field. -/
theorem readSized_eq :
    readSized = Reader.byte >>= fun b =>
      (fun d => (⟨b⟩, d, d.encodedSize + 1)) <$> (ModRM.mk b).readDisplacement := by
  simp only [readSized, read, map_bind, bind_pure_comp, Functor.map_map]

/-- Behind the ModRM byte a whole field is read. -/
theorem readSized_cons (b : UInt8) (field : List UInt8) (n : Nat) :
    readSized ⟨b :: field, n⟩
      = ((fun d => (⟨b⟩, d, d.encodedSize + 1)) <$> (ModRM.mk b).readDisplacement)
          ⟨field, n + 1⟩ := by
  rw [readSized_eq]
  exact bind_of_ok _ rfl

/-- The size that is told is the size that was read. -/
theorem encodedSize_displacementOf (m : ModRM) (field : List UInt8) :
    (m.displacementOf field).encodedSize = m.displacementSize := by
  unfold displacementOf displacementSize
  cases m.displacementWidth <;> rfl

end ModRM

-- ============================================================= one turn

namespace Cursor

variable {α : Type}

/-- A reader moves the cursor ahead by bytes that are there. -/
theorem exists_advance_read (c : Cursor) (r : Reader α) [Advances r] :
    ∃ (k : Nat) (hk : k ≤ c.remaining), (c.read r).2 = c.advance k hk := by
  cases hread : r (.ofBytes c.rest) with
  | ok a feed => exact ⟨feed.taken, taken_le_of_ok hread, by rw [read_of_ok hread]⟩
  | error fault feed => exact ⟨feed.taken, taken_le_of_error hread, by rw [read_of_error hread]⟩

/-- An error changes its offset, but not where the cursor is left. -/
theorem behind_decode (c : Cursor) : c.decode.2 = (c.read Instruction.read).2 := by
  unfold decode
  obtain ⟨found, next⟩ := c.read Instruction.read
  cases found <;> rfl

/-- A request moves the cursor ahead by bytes that are there, whether it
succeeds or fails. -/
theorem exists_advance_perform (c : Cursor) (r : Request) :
    ∃ (k : Nat) (hk : k ≤ c.remaining), (c.perform r).2 = c.advance k hk := by
  cases r with
  | scalar s => exact c.exists_advance_read s.reader
  | peek | slice => exact ⟨0, Nat.zero_le _, rfl⟩
  | instruction =>
      obtain ⟨k, hk, hbehind⟩ := c.exists_advance_read Instruction.read
      exact ⟨k, hk, c.behind_decode.trans hbehind⟩
  | modRM => exact c.exists_advance_read ModRM.readSized
  | displacement m => exact c.exists_advance_read m.readSizedDisplacement

/-- A cursor stands in its buffer. -/
theorem within (c : Cursor) : c.Within c.buffer where
  buffer_eq := rfl
  position_le := c.position_le
  position_add_remaining := c.position_add_remaining
  isExhausted_iff := by
    rw [isExhausted, remaining, List.isEmpty_iff, List.length_eq_zero_iff]
  remaining_eq_zero_iff := by
    have hsum := c.position_add_remaining
    omega
  checked_remaining := by
    have hsum := c.position_add_remaining
    rw [Checked.remaining, if_neg (Nat.not_lt.mpr c.position_le), ← hsum, Nat.add_sub_cancel_left]

/-- A whole field is read from the bytes ahead, or it is not there. -/
theorem read_of_whole {r : Reader α} [Advances r] {size : Nat} {value : List UInt8 → α}
    (hr : Whole r size value) (c : Cursor) :
    (∃ h : size ≤ c.remaining, c.read r = (.ok (value (c.rest.take size)), c.advance size h))
      ∨ (c.remaining < size ∧ c.read r = (.error ⟨c.position, .endOfStream none⟩, c)) := by
  rcases hr.cases c.rest 0 with ⟨hsize, hread⟩ | ⟨hshort, hread⟩
  · refine .inl ⟨hsize, (read_of_ok hread).trans ?_⟩
    exact congrArg (Prod.mk _) (advance_congr (Nat.zero_add size) _)
  · exact .inr ⟨hshort, read_of_error hread⟩

/-- The bytes of a slice, by their places. -/
theorem getElem?_slice (c : Cursor) (start stop k : Nat) :
    (c.slice start stop)[k]? = if start + k < stop then c.buffer[start + k]? else none := by
  rw [slice, List.getElem?_drop, List.getElem?_take]

/-- Slices that meet make one slice. -/
theorem slice_append_slice (c : Cursor) {start mid stop : Nat} (hstart : start ≤ mid)
    (hstop : mid ≤ stop) : c.slice start mid ++ c.slice mid stop = c.slice start stop := by
  have hfront : (c.buffer.take mid).drop start
      = ((c.buffer.take stop).drop start).take (mid - start) := by
    rw [← List.drop_take, List.take_take, Nat.min_eq_left hstop]
  have hback : (c.buffer.take stop).drop mid
      = ((c.buffer.take stop).drop start).drop (mid - start) := by
    rw [List.drop_drop, Nat.add_sub_cancel' hstart]
  unfold slice
  rw [hfront, hback, List.take_append_drop]

/-- The next byte is the one at the position. -/
theorem peek?_eq (c : Cursor) : c.peek? = c.buffer[c.position]? := by
  rw [peek?, c.rest_eq, List.head?_drop]

/-- A number is read from the next bytes, or nothing is taken. -/
theorem promise_scalar (c : Cursor) (s : Scalar) :
    Request.Promise c (.scalar s) (c.read s.reader) := by
  rcases read_of_whole s.whole_reader c with ⟨hsize, hread⟩ | ⟨hshort, hread⟩
  · rw [hread]
    refine ⟨⟨hsize, rfl⟩, ?_⟩
    rw [← c.rest_eq]
    exact s.number_valueOf (List.length_take_of_le hsize)
  · rw [hread]
    exact ⟨hshort, rfl, rfl⟩

/-- The cursor is left at the end of an instruction, and an error is where
it started. -/
theorem promise_instruction (c : Cursor) : Request.Promise c .instruction c.decode := by
  rcases hdecode : c.decode with ⟨found, next⟩
  cases found with
  | error e => exact (exists_advance_of_decode_error hdecode).1
  | ok i =>
      obtain ⟨hle, hpos, hnext⟩ := eq_advance_of_decode_ok hdecode
      exact ⟨hpos, hle, hnext⟩

/-- A ModRM byte and its displacement are two whole fields, and the second
may be missing. -/
theorem promise_modRM (c : Cursor) : Request.Promise c .modRM (c.read ModRM.readSized) := by
  have hnext : c.rest.head? = c.buffer[c.position]? := c.peek?_eq
  cases hrest : c.rest with
  | nil =>
      have hread : ModRM.readSized (.ofBytes c.rest)
          = .error (.endOfStream none) (.ofBytes c.rest) := by
        rw [hrest]
        rfl
      have hremaining : c.remaining = 0 := congrArg List.length hrest
      rw [hrest] at hnext
      rw [read_of_error hread]
      refine ⟨fun b hb => ?_, advance_congr ?_ _, rfl⟩
      · rw [← hnext] at hb
        cases hb
      · rw [hremaining]
        rfl
  | cons b field =>
      have hbehind := ModRM.readSized_cons b field 0
      have hwhole := (ModRM.mk b).whole_readDisplacement.map
        fun d => (ModRM.mk b, d, d.encodedSize + 1)
      have hremaining : c.remaining = field.length + 1 := congrArg List.length hrest
      rw [hrest] at hnext
      rw [← hrest] at hbehind
      rcases hwhole.cases field 1 with ⟨hlong, hread⟩ | ⟨hshort, hread⟩
      · have hsize := (ModRM.mk b).encodedSize_displacementOf
          (field.take (ModRM.mk b).displacementSize)
        rw [read_of_ok (hbehind.trans hread)]
        refine ⟨hnext.symm, congrArg (· + 1) hsize, ?_, advance_congr ?_ _⟩
        · rw [hsize, hremaining]
          exact Nat.succ_le_succ hlong
        · show 0 + 1 + (ModRM.mk b).displacementSize = _ + 1
          rw [hsize]
          omega
      · -- the ModRM byte stays taken where its displacement is missing
        rw [read_of_error (hbehind.trans hread)]
        refine ⟨fun first hfirst => ?_, advance_congr ?_ _, rfl⟩
        · rw [← hnext] at hfirst
          cases hfirst
          rw [hremaining]
          exact Nat.succ_lt_succ hshort
        · rw [hremaining, Nat.min_eq_left (Nat.le_add_left 1 _)]

theorem promise_displacement (c : Cursor) (m : ModRM) :
    Request.Promise c (.displacement m) (c.read m.readSizedDisplacement) := by
  rcases read_of_whole m.whole_readSizedDisplacement c with ⟨hlong, hread⟩ | ⟨hshort, hread⟩
  · have hsize := m.encodedSize_displacementOf (c.rest.take m.displacementSize)
    rw [hread]
    exact ⟨hsize, hsize.trans_le hlong, advance_congr hsize.symm _⟩
  · rw [hread]
    exact ⟨hshort, rfl, rfl⟩

/-- Every request keeps its promise. -/
theorem promise_perform (c : Cursor) (r : Request) : r.Promise c (c.perform r) := by
  cases r with
  | scalar s => exact c.promise_scalar s
  | peek => exact ⟨rfl, congrArg Except.ok c.peek?_eq⟩
  | slice start stop => exact ⟨rfl, _, rfl, c.getElem?_slice start stop⟩
  | instruction => exact c.promise_instruction
  | modRM => exact c.promise_modRM
  | displacement m => exact c.promise_displacement m

end Cursor

-- ===================================================== the checked turn

namespace Checked

variable {c : Cursor} {α : Type}

/-- A step that follows a reader shows what the cursor shows. -/
theorem observe_eq (c : Cursor) {s : Step α} {r : Reader α} [Advances r] {lag : α → Int}
    (hs : Follows c.buffer c.position (Counted c.buffer c.position 0) s r
      fun a => Counted c.buffer c.position (lag a)) :
    observe s c.position = .ok ((c.read r).1, (c.read r).2.position) := by
  have hagree := hs _ _ (counted_start c)
  unfold observe
  cases hread : r (.ofBytes c.rest) with
  | ok a feed =>
      rw [hread] at hagree
      rw [Cursor.read_of_ok hread]
      generalize s ⟨c.position, 0⟩ = stepped at hagree
      cases hagree with
      | ok hbehind => simp only [hbehind.position_eq, Cursor.advance]
  | error fault feed =>
      rw [hread] at hagree
      rw [Cursor.read_of_error hread]
      generalize s ⟨c.position, 0⟩ = stepped at hagree
      cases hagree with
      | fault htracks => simp only [htracks.position_eq, Cursor.advance]

section Following

variable {buffer : List UInt8} {start : Nat}

theorem follows_scalar (s : Scalar) :
    Follows buffer start (Counted buffer start 0) (scalar buffer s) s.reader
      fun _ => Counted buffer start (0 - s.size) := by
  cases s with
  | byte => exact follows_byte
  | signedByte => exact follows_byte.map _
  | word => exact follows_word
  | signedWord => exact follows_word.map _

theorem follows_displacement (m : ModRM) :
    Follows buffer start (Counted buffer start 0)
      ((fun d => (d, d.encodedSize)) <$> readDisplacement buffer m) m.readSizedDisplacement
      fun found => Counted buffer start (0 - found.2) := by
  rw [ModRM.readSizedDisplacement, ← bind_pure_comp, ← bind_pure_comp]
  exact (follows_readDisplacement m).bind fun d => follows_pure fun _ _ h => h

/-- The checked ModRM byte follows the reader, and counts nothing. -/
theorem follows_modRM :
    Follows buffer start (Counted buffer start 0) (modRM buffer) ModRM.readSized
      fun found => Counted buffer start (0 - 1 - found.2.1.encodedSize) := by
  rw [ModRM.readSized_eq]
  apply follows_byte.bind
  intro b
  rw [← bind_pure_comp]
  exact (follows_readDisplacement ⟨b⟩).bind fun d => follows_pure fun _ _ h => h

end Following

/-- The ends of a slice are moved into order before it is cut. -/
theorem slice_eq (c : Cursor) (start stop : Nat) :
    slice c.buffer start stop = pure (c.slice start stop) := by
  have hinside : min start (min stop c.buffer.length) ≤ min stop c.buffer.length
      ∧ min stop c.buffer.length ≤ c.buffer.length :=
    ⟨Nat.min_le_right _ _, Nat.min_le_right _ _⟩
  have htake : c.buffer.take (min stop c.buffer.length) = c.buffer.take stop := by
    rw [List.take_eq_take_iff]
    omega
  have hdrop : (c.buffer.take stop).drop (min start (min stop c.buffer.length))
      = (c.buffer.take stop).drop start := by
    rw [List.drop_eq_drop_iff, List.length_take]
    omega
  rw [slice, range, if_pos hinside, ← List.drop_take, htake, hdrop]
  rfl

/-- The checked requests meet no defect, and they are answered as those of
the cursor are. Only an instruction counts its bytes. -/
theorem perform_eq (c : Cursor) (r : Request)
    (hroom : r = .instruction → c.buffer.length + 8 ≤ UInt32.size) :
    perform c.buffer c.position r = .ok ((c.perform r).1, (c.perform r).2.position) := by
  cases r with
  | scalar s => exact observe_eq c (follows_scalar s)
  | peek =>
      rw [perform, ← c.peek?_eq]
      rfl
  | slice start stop =>
      rw [perform, slice_eq]
      rfl
  | instruction => exact decode_eq c (hroom rfl)
  | modRM => exact observe_eq c follows_modRM
  | displacement m => exact observe_eq c (follows_displacement m)

end Checked

-- ============================================================ all turns

namespace Cursor

variable {c : Cursor}

/-- Every turn of a session is made of a cursor in the same buffer. -/
theorem exists_of_mem_turns {requests : List Request} {turn : Turn}
    (hturn : turn ∈ c.turns requests) :
    ∃ (d : Cursor) (r : Request), d.buffer = c.buffer ∧ turn = d.turn r := by
  -- along the requests: a turn only moves the cursor ahead
  induction requests generalizing c with
  | nil => cases hturn
  | cons r later ih =>
      rcases List.mem_cons.mp hturn with hfirst | hlater
      · exact ⟨c, r, rfl, hfirst⟩
      · obtain ⟨k, hk, hnext⟩ := c.exists_advance_perform r
        have hbehind : (c.turn r).behind = c.advance k hk := hnext
        rw [hbehind] at hlater
        exact ih (c := c.advance k hk) hlater

end Cursor

-- =========================================================== statement

/-- Whatever is asked of a cursor, and whether it is given or not, the
cursor stays in its buffer, where what is behind and what is ahead add up,
and it never goes back. Each request keeps its promise. None of them
subtracts, indexes or cuts out of order, and only an instruction needs a
bound on the buffer for this, since it counts in 32 bits. Slices that meet
make one slice. -/
theorem session_keeps_cursor_in_buffer (buffer : List UInt8) (requests : List Request) :
    (Cursor.ofBytes buffer).Within buffer
      ∧ (∀ turn ∈ (Cursor.ofBytes buffer).turns requests,
          turn.behind.Within buffer ∧ turn.before.position ≤ turn.behind.position
            ∧ turn.request.Promise turn.before (turn.answer, turn.behind)
            ∧ ((turn.request = .instruction → buffer.length + 8 ≤ UInt32.size) →
              Checked.perform buffer turn.before.position turn.request
                = .ok (turn.answer, turn.behind.position)))
      ∧ ∀ (c : Cursor) (start mid stop : Nat), start ≤ mid → mid ≤ stop →
          c.slice start mid ++ c.slice mid stop = c.slice start stop := by
  refine ⟨(Cursor.ofBytes buffer).within, ?_, fun c _ _ _ => c.slice_append_slice⟩
  intro turn hturn
  obtain ⟨c, r, hbuffer, rfl⟩ := Cursor.exists_of_mem_turns hturn
  replace hbuffer : c.buffer = buffer := hbuffer
  obtain ⟨k, hk, hnext⟩ := c.exists_advance_perform r
  replace hnext : (c.turn r).behind = c.advance k hk := hnext
  subst hbuffer
  refine ⟨?_, ?_, c.promise_perform r, Checked.perform_eq c r⟩
  · rw [hnext]
    exact (c.advance k hk).within
  · rw [hnext]
    exact Nat.le_add_right _ _

/-- A session over seven bytes in which a ModRM byte is taken but not its
displacement, a word is asked for where one byte is left, and an
instruction is cut behind its opcode. -/
theorem session_keeps_cursor_in_buffer_of_failures :
    let buffer : List UInt8 := [0x34, 0x12, 0xFF, 0x46, 0xF9, 0x80, 0x87]
    let c := Cursor.ofBytes buffer
    let turns := c.turns [.scalar .word, .scalar .signedByte, .modRM, .modRM,
      .scalar .signedWord, .instruction, .slice 5 1000, .peek]
    turns.map (·.behind.position) = [2, 3, 5, 6, 6, 7, 7, 7]
      ∧ Checked.perform buffer 5 .modRM = .ok (.error ⟨6, .endOfStream none⟩, 6)
      ∧ Checked.perform buffer 6 .instruction = .ok (.error ⟨6, .endOfStream (some 0x87)⟩, 7)
      ∧ Checked.remaining buffer 7 = .ok 0
      ∧ c.slice 1 3 ++ c.slice 3 1000 = [0x12, 0xFF, 0x46, 0xF9, 0x80, 0x87] := by
  intro buffer c turns
  have hmodRM : ⟨c.advance 5 (by decide), .modRM, .error ⟨6, .endOfStream none⟩,
      c.advance 6 (by decide)⟩ ∈ turns := List.mem_of_getElem? (i := 3) rfl
  have hinstruction : ⟨c.advance 6 (by decide), .instruction,
      .error ⟨6, .endOfStream (some 0x87)⟩, c.advance 7 (by decide)⟩ ∈ turns :=
    List.mem_of_getElem? (i := 5) rfl
  obtain ⟨-, hturns, hslices⟩ := session_keeps_cursor_in_buffer buffer
    [.scalar .word, .scalar .signedByte, .modRM, .modRM, .scalar .signedWord, .instruction,
      .slice 5 1000, .peek]
  obtain ⟨-, -, -, hcut⟩ := hturns _ hmodRM
  obtain ⟨hwithin, -, -, hfailed⟩ := hturns _ hinstruction
  refine ⟨by decide +kernel, hcut fun h => absurd h (by decide), hfailed fun _ => by decide,
    hwithin.checked_remaining, ?_⟩
  exact (hslices c 1 3 1000 (by decide) (by decide)).trans rfl

end Disasm8086
