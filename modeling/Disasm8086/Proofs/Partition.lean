/-
A disassembler partitions its bytes. Asked for items over and over, it
yields instructions that lie end to end from the first byte on, then at
most one error, and then nothing, and it stands still from there on.
Every instruction comes with exactly the bytes that encode it, and these
decode to it on their own.

One step of the walk is one of three things: there are no bytes ahead,
there is a layout ahead, or there is a fault ahead. What a whole walk
yields (`Partitions`) follows by induction on the bytes ahead, since a
layout is never empty; a fault closes the walk at once.
-/
import Disasm8086.Disassembler
import Disasm8086.Proofs.Layout

namespace Disasm8086

namespace Disassembler

-- ============================================================= calls

/-- The walk behind `n` calls. -/
def after (d : Disassembler) : Nat → Disassembler
  | 0 => d
  | n + 1 => d.next.2.after n

/-- What call number `n` yields, counted from zero. -/
def call (d : Disassembler) (n : Nat) : Option Item := (d.after n).next.1

/-- A walk at its end stays there. -/
theorem after_of_next_none {d : Disassembler} (h : d.next = (none, d)) (n : Nat) :
    d.after n = d := by
  induction n with
  | zero => rfl
  | succ n ih => rw [after, h, ih]

-- ============================================================== steps

variable {d : Disassembler}

/-- Behind an error a walk yields nothing. -/
theorem next_of_failed (h : d.failed = true) : d.next = (none, d) := by
  rw [next, h]
  rfl

theorem next_of_exhausted (h : d.cursor.rest = []) : d.next = (none, d) := by
  rw [next, Cursor.isExhausted, h, List.isEmpty_nil, Bool.or_true]
  rfl

/-- Otherwise it decodes the bytes ahead. -/
theorem next_of_pending (hfailed : d.failed = false) (h : d.cursor.rest ≠ []) :
    d.next = match d.cursor.decode with
      | (.ok i, cursor) =>
        (some (.ok ⟨d.offset, d.cursor.rest.take i.length, i⟩), ⟨cursor, false⟩)
      | (.error e, cursor) => (some (.error e), ⟨cursor, true⟩) := by
  rw [next, hfailed, Cursor.isExhausted, List.isEmpty_eq_false_iff.mpr h]
  rfl

/-- A layout ahead is yielded with its own bytes. -/
theorem next_of_layout (hfailed : d.failed = false) (l : Layout) {rest : List UInt8}
    (h : d.cursor.rest = l.bytes ++ rest) :
    d.next = (some (.ok ⟨d.offset, l.bytes, l.instruction⟩),
      ⟨d.cursor.advance l.bytes.length (Cursor.length_le_remaining h), false⟩) := by
  have hpending : d.cursor.rest ≠ [] := by
    rw [h]
    exact List.append_ne_nil_of_left_ne_nil (List.length_pos_iff.mp l.length_bytes_pos) rest
  have hdecode := l.read_append rest
  rw [← h] at hdecode
  have htake : d.cursor.rest.take l.instruction.length = l.bytes := by
    rw [h]
    exact List.take_left
  rw [next_of_pending hfailed hpending, Cursor.decode_of_read_ok hdecode]
  simp only [htake]

/-- A fault ahead is yielded, and ends the walk. -/
theorem next_of_fault (hfailed : d.failed = false) (h : d.cursor.rest ≠ []) {fault : Fault}
    {feed : Feed} (hread : Instruction.read (.ofBytes d.cursor.rest) = .error fault feed) :
    d.next = (some (.error ⟨d.offset, fault⟩),
      ⟨d.cursor.advance feed.taken (Reader.taken_le_of_error hread), true⟩) := by
  rw [next_of_pending hfailed h, Cursor.decode_of_read_error hread]
  rfl

-- ========================================================== partition

/-- The walk `d`, which has reached `start` and has `ahead` before it,
yields the instructions `found` and then the error `failure`, if any. -/
structure Partitions (d : Disassembler) (start : Nat) (ahead : List UInt8)
    (found : List Disassembly) (failure : Option DecodeError) : Prop where
  -- the instructions come first, then the error, then nothing
  calls : ∀ n, d.call n = (found.map Except.ok ++ failure.toList.map Except.error)[n]?
  -- calls that yield nothing leave the walk where it is
  stays : ∀ n, found.length + failure.toList.length ≤ n →
    (d.after n).offset = (d.after (found.length + failure.toList.length)).offset
  -- the first instruction starts where the walk does
  starts : ∀ item, found[0]? = some item → item.offset = start
  -- and every other one where the one before it ends
  follows : ∀ n item item', found[n]? = some item → found[n + 1]? = some item' →
    item'.offset = item.offset + item.bytes.length
  -- behind an instruction the walk stands at its end
  stands : ∀ n item, found[n]? = some item →
    (d.after (n + 1)).offset = item.offset + item.bytes.length
  -- an instruction has as many bytes as it says, and these decode to it
  alone : ∀ item ∈ found, item.bytes.length = item.instruction.length
    ∧ 1 ≤ item.bytes.length ∧ decodeNext item.bytes = .ok item.instruction
  -- together these are the bytes ahead, from the first one on
  initial : found.flatMap Disassembly.bytes <+: ahead
  -- all of them, if there is no error
  complete : failure = none → found.flatMap Disassembly.bytes = ahead
  -- and otherwise those in front of the error, which are not all
  stops : ∀ e, failure = some e → (found.flatMap Disassembly.bytes).length < ahead.length
    ∧ e.offset = start + (found.flatMap Disassembly.bytes).length

theorem partitions_of_exhausted (h : d.cursor.rest = []) :
    d.Partitions d.offset d.cursor.rest [] none := by
  have hnext := next_of_exhausted h
  have hafter := after_of_next_none hnext
  constructor
  case calls =>
    intro n
    rw [call, hafter, hnext]
    rfl
  case stays =>
    intro n _
    rw [hafter, hafter]
  case complete => exact fun _ => h.symm
  all_goals simp

/-- Bytes that start with a fault are partitioned into nothing but the
error. -/
theorem partitions_of_fault (hfailed : d.failed = false) (h : d.cursor.rest ≠ []) {fault : Fault}
    {feed : Feed} (hread : Instruction.read (.ofBytes d.cursor.rest) = .error fault feed) :
    d.Partitions d.offset d.cursor.rest [] (some ⟨d.offset, fault⟩) := by
  have hnext := next_of_fault hfailed h hread
  -- behind the error the walk has failed, and yields nothing more
  have hended : d.next.2.next = (none, d.next.2) := next_of_failed (by rw [hnext])
  have hafter := after_of_next_none hended
  constructor
  case calls =>
    intro n
    cases n with
    | zero => rw [call, after, hnext]; rfl
    | succ n => rw [call, after, hafter, hended]; rfl
  case stays =>
    intro n hn
    cases n with
    | zero => simp at hn
    | succ n => rw [after, hafter]; rfl
  case stops =>
    rintro e ⟨⟩
    exact ⟨List.length_pos_iff.mpr h, rfl⟩
  all_goals simp

/-- An instruction goes in front of what the walk behind it yields. -/
theorem partitions_of_layout (hfailed : d.failed = false) (l : Layout) {rest : List UInt8}
    (h : d.cursor.rest = l.bytes ++ rest) {found : List Disassembly}
    {failure : Option DecodeError}
    (hbehind : Partitions
      ⟨d.cursor.advance l.bytes.length (Cursor.length_le_remaining h), false⟩
      (d.offset + l.bytes.length) rest found failure) :
    d.Partitions d.offset d.cursor.rest (⟨d.offset, l.bytes, l.instruction⟩ :: found) failure := by
  have hnext := next_of_layout hfailed l h
  -- behind its first call, the walk is the one from the end of the layout
  have hafter : ∀ n, d.after (n + 1)
      = after ⟨d.cursor.advance l.bytes.length (Cursor.length_le_remaining h), false⟩ n := by
    intro n
    rw [after, hnext]
  rw [h]
  constructor
  case calls =>
    intro n
    cases n with
    | zero => rw [call, after, hnext]; rfl
    | succ n => rw [call, hafter]; exact hbehind.calls n
  case stays =>
    intro n hn
    rw [List.length_cons, Nat.add_right_comm] at hn ⊢
    obtain ⟨n, rfl⟩ : ∃ m, n = m + 1 := ⟨n - 1, by omega⟩
    rw [hafter, hafter]
    exact hbehind.stays n (by omega)
  case starts =>
    rintro item ⟨⟩
    rfl
  case follows =>
    intro n item item' hitem hitem'
    cases n with
    | zero =>
        obtain rfl := Option.some.inj hitem
        exact hbehind.starts item' hitem'
    | succ n => exact hbehind.follows n item item' hitem hitem'
  case stands =>
    intro n item hitem
    cases n with
    | zero =>
        obtain rfl := Option.some.inj hitem
        rw [hafter]
        rfl
    | succ n =>
        rw [hafter]
        exact hbehind.stands n item hitem
  case alone =>
    intro item hitem
    rcases List.mem_cons.mp hitem with rfl | hitem
    · exact ⟨rfl, l.length_bytes_pos, decodeNext_eq_ok_iff.mpr ⟨l, [], by simp, rfl⟩⟩
    · exact hbehind.alone item hitem
  case initial => exact (List.prefix_append_right_inj _).mpr hbehind.initial
  case complete =>
    intro hnone
    rw [List.flatMap_cons, hbehind.complete hnone]
  case stops =>
    intro e he
    have hstops := hbehind.stops e he
    simp only [List.flatMap_cons, List.length_append]
    omega

/-- Every walk that has not failed partitions the bytes ahead of it. -/
theorem exists_partitions (d : Disassembler) (hfailed : d.failed = false) :
    ∃ found failure, d.Partitions d.offset d.cursor.rest found failure := by
  by_cases hbytes : d.cursor.rest = []
  · exact ⟨[], none, partitions_of_exhausted hbytes⟩
  cases hread : Instruction.read (.ofBytes d.cursor.rest) with
  | error fault feed => exact ⟨[], _, partitions_of_fault hfailed hbytes hread⟩
  | ok i feed =>
      obtain ⟨l, rest, h, -, -⟩ := exists_layout_of_read_ok hread
      have hrest := Cursor.rest_advance_length h
      -- a layout is not empty, so fewer bytes lie ahead of the next call
      have hshorter := l.length_bytes_pos
      obtain ⟨found, failure, hbehind⟩ :=
        exists_partitions ⟨d.cursor.advance l.bytes.length (Cursor.length_le_remaining h), false⟩
          rfl
      rw [hrest] at hbehind
      exact ⟨_, failure, partitions_of_layout hfailed l h hbehind⟩
termination_by d.cursor.rest.length
decreasing_by
  rw [hrest, h, List.length_append]
  omega

end Disassembler

/-- The items of a byte stream partition it: the instructions lie end to
end from its first byte on, each with the bytes that encode it, up to
the error that ends the walk or to the end of the stream. -/
theorem disassembler_partitions_bytes (bytes : List UInt8) :
    ∃ found failure, (Disassembler.ofBytes bytes).Partitions 0 bytes found failure :=
  Disassembler.exists_partitions (.ofBytes bytes) rfl

end Disasm8086
