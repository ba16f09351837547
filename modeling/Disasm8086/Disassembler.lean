/-
Walking a byte stream. A disassembler yields one item after another:
instructions with their place in the stream, then, if some bytes do not
decode, one error, and nothing after that.
-/
import Disasm8086.Cursor
import Disasm8086.Log
import Disasm8086.Render

namespace Disasm8086

/-- An instruction, where it starts, and the bytes that encode it. -/
structure Disassembly where
  offset : Nat
  bytes : List UInt8
  instruction : Instruction
  deriving DecidableEq, Repr

/-- What a disassembler yields. -/
abbrev Item := Except DecodeError Disassembly

/-- A walk along a byte stream. -/
structure Disassembler where
  cursor : Cursor
  failed : Bool
  deriving DecidableEq, Repr

namespace Disassembler

/-- A walk that starts with the first byte. -/
def ofBytes (bytes : List UInt8) : Disassembler := ⟨.ofBytes bytes, false⟩

/-- Where the next instruction starts. -/
def offset (d : Disassembler) : Nat := d.cursor.position

/-- The next item, and the walk behind it. -/
def next (d : Disassembler) : Option Item × Disassembler :=
  if d.failed || d.cursor.isExhausted then (none, d)
  else
    match d.cursor.decode with
    | (.ok i, cursor) =>
      (some (.ok ⟨d.offset, d.cursor.rest.take i.length, i⟩), ⟨cursor, false⟩)
    | (.error e, cursor) => (some (.error e), ⟨cursor, true⟩)

/-- The number of items is bounded by the bytes ahead. -/
def bound (d : Disassembler) : Nat :=
  if d.failed then 0 else d.cursor.rest.length

/-- Every item uses up bytes, or it is an error and the last one. -/
theorem bound_next_lt {d next : Disassembler} {item : Item}
    (h : d.next = (some item, next)) : next.bound < d.bound := by
  unfold Disassembler.next at h
  split at h
  case isTrue => simp at h
  case isFalse hgo =>
    simp only [Bool.or_eq_true, not_or, Bool.not_eq_true] at hgo
    obtain ⟨hfailed, hbytes⟩ := hgo
    have hpos : 0 < d.cursor.rest.length :=
      List.length_pos_iff.mpr (List.isEmpty_eq_false_iff.mp hbytes)
    split at h
    case h_1 i cursor hdecode =>
      simp only [Prod.mk.injEq] at h
      rw [← h.2]
      simpa [bound, hfailed] using Cursor.length_rest_lt_of_decode_ok hdecode
    case h_2 e cursor hdecode =>
      simp only [Prod.mk.injEq] at h
      rw [← h.2]
      simpa [bound, hfailed] using hpos

/-- The items still to come, behind those in `found`, latest first. -/
def collect (d : Disassembler) (found : List Item) : List Item :=
  match _h : d.next with
  | (none, _) => found.reverse
  | (some item, next) => next.collect (item :: found)
termination_by d.bound
decreasing_by exact bound_next_lt ‹_›

/-- All items still to come. -/
def items (d : Disassembler) : List Item := d.collect []

theorem collect_of_next_none {d e : Disassembler} (found : List Item)
    (h : d.next = (none, e)) : d.collect found = found.reverse := by
  rw [collect]
  split
  case h_1 => rfl
  case h_2 hnext => simp [h] at hnext

/-- An item found goes in front of those found before. -/
theorem collect_of_next_some {d next : Disassembler} {item : Item} (found : List Item)
    (h : d.next = (some item, next)) : d.collect found = next.collect (item :: found) := by
  rw [collect]
  split
  case h_1 hnext => simp [h] at hnext
  case h_2 hnext =>
    rw [h] at hnext
    cases hnext
    rfl

/-- The items found so far stand in front of those still to come. -/
theorem collect_eq (d : Disassembler) (found : List Item) :
    d.collect found = found.reverse ++ d.items := by
  match hnext : d.next with
  | (none, _) => simp [items, collect_of_next_none _ hnext]
  | (some item, next) =>
      rw [items, collect_of_next_some _ hnext, collect_of_next_some _ hnext,
        collect_eq next, collect_eq next [item]]
      simp
termination_by d.bound
decreasing_by all_goals exact bound_next_lt hnext

/-- A walk that has come to its end yields nothing more. -/
theorem items_of_next_none {d e : Disassembler} (h : d.next = (none, e)) : d.items = [] :=
  collect_of_next_none [] h

/-- The items are the next one and those behind it. -/
theorem items_of_next_some {d next : Disassembler} {item : Item}
    (h : d.next = (some item, next)) : d.items = item :: next.items := by
  rw [items, collect_of_next_some [] h, collect_eq]
  rfl

end Disassembler

/-- All items that a byte stream yields. -/
def disassemble (bytes : List UInt8) : List Item := (Disassembler.ofBytes bytes).items

/-- The lines of a listing, or the first error. -/
def assemblyLines (bytes : List UInt8) (mode : ValueMode) : Except DecodeError (List String) :=
  (disassemble bytes).mapM fun item => do return (← item).instruction.render mode

/-- A byte stream as assembly text, one instruction a line. -/
def assembly (bytes : List UInt8) (mode : ValueMode) : Except DecodeError String := do
  return "\n".intercalate (← assemblyLines bytes mode)

-- ============================================================= sources

/-- A source of bytes, of which one read yields `piece` at most, and what
goes wrong at its end, if anything does. -/
structure ByteSource where
  bytes : List UInt8
  piece : Nat
  failure : Option String := none

namespace ByteSource

/-- All bytes of the source, or why it could not be read. A read that
yields nothing counts as the end. -/
def readAll (s : ByteSource) : Except String (List UInt8) :=
  if s.piece = 0 ∧ s.bytes ≠ [] then .ok []
  else
    match s.failure with
    | some reason => .error reason
    | none => .ok s.bytes

end ByteSource

/-- Why a source has no assembly text. -/
inductive AssemblyError where
  | source (reason : String)
  | decode (e : DecodeError)
  deriving DecidableEq, Repr

/-- The report shown to the user. -/
def AssemblyError.message : AssemblyError → String
  | .source reason => "Failed to read instruction stream: " ++ reason
  | .decode e => e.message

/-- The bytes of a source as assembly text. -/
def ByteSource.assembly (s : ByteSource) (mode : ValueMode) : Except AssemblyError String :=
  match s.readAll with
  | .error reason => .error (.source reason)
  | .ok bytes =>
    match Disasm8086.assembly bytes mode with
    | .ok text => .ok text
    | .error e => .error (.decode e)

-- ================================================================= log

namespace Log

/-- A decoded instruction, with its offset in at least five digits. -/
def decoded (offset : Nat) (i : Instruction) : Record where
  level := .trace
  target := "marty86_core::cpu_8086::decode"
  message := String.ofList (Text.hexDigits 5 offset) ++ ": " ++ i.render .integer

/-- A fault in the stream with the given label. -/
def failed (label : String) (e : DecodeError) : Record where
  level := .debug
  target := "marty86_core::cpu_8086"
  message := label ++ ": decode failed: " ++ e.message

/-- A source that has been read. -/
def sourceRead (label : String) (size : Nat) : Record where
  level := .debug
  target := "marty86_core::cpu_8086"
  message := label ++ ": read " ++ Text.natural size ++ " bytes"

/-- The record that an item leaves. -/
def item (label : String) : Item → Record
  | .ok d => decoded d.offset d.instruction
  | .error e => failed label e

/-- The records of decoding one instruction at the start of the bytes. -/
def ofDecodeNext (label : String) (bytes : List UInt8) : List Record :=
  match decodeNext bytes with
  | .ok i => [decoded 0 i]
  | .error e => [failed label e]

/-- The records of disassembling a byte stream. -/
def ofDisassemble (label : String) (bytes : List UInt8) : List Record :=
  (disassemble bytes).map (item label)

/-- The records of disassembling a source. -/
def ofSource (label : String) (s : ByteSource) : List Record :=
  match s.readAll with
  | .error _ => []
  | .ok bytes => sourceRead label bytes.length :: ofDisassemble label bytes

end Log

end Disasm8086
