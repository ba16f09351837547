/-
Reading bytes one after another. A feed is what lies ahead, together
with the number of bytes taken so far; a reader takes some bytes off it
and yields a value or a fault. A fault keeps the feed as it was when
the failing read began, so how far a failed reader came can be told.

Readers only ever take bytes from the front (`Reader.Advances`), which
is the fact behind every statement about positions and lengths.
-/
import Disasm8086.Fault

namespace Disasm8086

/-- The bytes ahead, and how many have been taken before them. -/
structure Feed where
  rest : List UInt8
  taken : Nat
  deriving DecidableEq, Repr

namespace Feed

/-- A feed of which nothing has been taken. -/
def ofBytes (bytes : List UInt8) : Feed := ⟨bytes, 0⟩

/-- `next` is `feed` with some bytes taken off its front. -/
def Reaches (feed next : Feed) : Prop :=
  ∃ used, feed.rest = used ++ next.rest ∧ next.taken = feed.taken + used.length

theorem Reaches.refl (feed : Feed) : Reaches feed feed :=
  ⟨[], by simp⟩

/-- What is taken in two steps is taken in one. -/
theorem Reaches.trans {a b c : Feed}
    (hab : Reaches a b) (hbc : Reaches b c) : Reaches a c := by
  obtain ⟨used, hrest, htaken⟩ := hab
  obtain ⟨more, hrest', htaken'⟩ := hbc
  refine ⟨used ++ more, ?_, ?_⟩
  · rw [hrest, hrest', List.append_assoc]
  · rw [htaken', htaken, List.length_append, Nat.add_assoc]

end Feed

/-- Takes bytes off a feed, and yields a value or a fault. -/
abbrev Reader := EStateM Fault Feed

/-- The word whose low byte comes first. -/
def littleEndian (low high : UInt8) : UInt16 :=
  UInt16.ofNat (low.toNat + 256 * high.toNat)

namespace Reader

variable {α β : Type}

-- ========================================================= primitives

/-- Takes one byte. -/
def byte : Reader UInt8 := fun feed =>
  match feed.rest with
  | b :: rest => .ok b ⟨rest, feed.taken + 1⟩
  | [] => .error (.endOfStream none) feed

/-- Takes one word, low byte first, or nothing at all. -/
def word : Reader UInt16 := fun feed =>
  match feed.rest with
  | low :: high :: rest => .ok (littleEndian low high) ⟨rest, feed.taken + 2⟩
  | _ => .error (.endOfStream none) feed

/-- Takes the longest run of bytes that satisfy `p`. -/
def run (p : UInt8 → Bool) : Reader (List UInt8) := fun feed =>
  let taken := feed.rest.takeWhile p
  .ok taken ⟨feed.rest.dropWhile p, feed.taken + taken.length⟩

/-- How many bytes have been taken. -/
def taken : Reader Nat := fun feed => .ok feed.taken feed

/-- Reports a stream that ends inside `r` as ending inside the
instruction with this opcode. -/
def naming (opcode : UInt8) (r : Reader α) : Reader α := fun feed =>
  match r feed with
  | .ok a next => .ok a next
  | .error fault next => .error (fault.naming opcode) next

/-- A signed byte. -/
def signedByte : Reader Int8 := UInt8.toInt8 <$> byte

/-- A signed word. -/
def signedWord : Reader Int16 := UInt16.toInt16 <$> word

-- =========================================================== progress

/-- The feed that a reader leaves, whether it succeeds or fails. -/
def after (r : Reader α) (feed : Feed) : Feed :=
  match r feed with
  | .ok _ next => next
  | .error _ next => next

/-- The reader only takes bytes off the front, and counts them. -/
class Advances (r : Reader α) : Prop where
  reaches : ∀ feed : Feed, feed.Reaches (r.after feed)

instance advances_pure (a : α) : Advances (pure a) := ⟨fun feed => .refl feed⟩

instance advances_throw (fault : Fault) : Advances (throw fault : Reader α) :=
  ⟨fun feed => .refl feed⟩

instance advances_taken : Advances taken := ⟨fun feed => .refl feed⟩

/-- A byte is taken, or nothing. -/
instance advances_byte : Advances byte where
  reaches feed := by
    obtain ⟨rest, n⟩ := feed
    cases rest with
    | nil => exact .refl _
    | cons b rest => exact ⟨[b], rfl, rfl⟩

/-- Two bytes are taken, or nothing. -/
instance advances_word : Advances word where
  reaches feed := by
    obtain ⟨rest, n⟩ := feed
    match rest with
    | [] => exact .refl _
    | [_] => exact .refl _
    | low :: high :: rest => exact ⟨[low, high], rfl, rfl⟩

instance advances_run (p : UInt8 → Bool) : Advances (run p) where
  reaches feed := ⟨feed.rest.takeWhile p, List.takeWhile_append_dropWhile.symm, rfl⟩

/-- Readers that advance may follow each other. -/
theorem advances_bind {r : Reader α} {f : α → Reader β}
    (hr : Advances r) (hf : ∀ a, Advances (f a)) : Advances (r >>= f) where
  reaches feed := by
    have hr := hr.reaches feed
    simp only [after, bind, EStateM.bind] at hr ⊢
    cases h : r feed with
    | ok a next =>
        rw [h] at hr
        exact hr.trans ((hf a).reaches next)
    | error fault next =>
        rw [h] at hr
        exact hr

/-- A reader advances whatever is made of its value. -/
instance advances_map {r : Reader α} (f : α → β) [hr : Advances r] : Advances (f <$> r) := by
  rw [← bind_pure_comp]
  exact advances_bind hr fun a => advances_pure (f a)

instance advances_signedByte : Advances signedByte := advances_map UInt8.toInt8

instance advances_signedWord : Advances signedWord := advances_map UInt16.toInt16

/-- Naming the opcode changes the fault, not what was taken. -/
theorem advances_naming (opcode : UInt8) {r : Reader α} (hr : Advances r) :
    Advances (naming opcode r) where
  reaches feed := by
    have hr := hr.reaches feed
    simp only [after, naming] at hr ⊢
    cases h : r feed with
    | ok a next =>
        rw [h] at hr
        exact hr
    | error fault next =>
        rw [h] at hr
        exact hr

/-- A choice between readers that advance is one. -/
theorem advances_ite (c : Prop) [Decidable c] {r s : Reader α}
    (hr : Advances r) (hs : Advances s) : Advances (if c then r else s) := by
  split
  · exact hr
  · exact hs

section Taking

variable {r : Reader α} [Advances r] {bytes : List UInt8} {next : Feed}

/-- What a reader leaves is what lies behind the bytes that it took, and
it takes no more than there are. -/
theorem after_ofBytes (r : Reader α) [Advances r] (bytes : List UInt8) :
    (r.after (.ofBytes bytes)).taken ≤ bytes.length
      ∧ (r.after (.ofBytes bytes)).rest = bytes.drop (r.after (.ofBytes bytes)).taken := by
  obtain ⟨used, hrest, htaken⟩ := Advances.reaches (r := r) (.ofBytes bytes)
  replace hrest : bytes = used ++ (r.after (.ofBytes bytes)).rest := hrest
  replace htaken : (r.after (.ofBytes bytes)).taken = used.length :=
    htaken.trans (Nat.zero_add _)
  generalize r.after (.ofBytes bytes) = next at hrest htaken
  subst hrest
  rw [htaken, List.drop_left, List.length_append]
  exact ⟨Nat.le_add_right _ _, rfl⟩

/-- A reader that succeeds has taken bytes that were there. -/
theorem taken_le_of_ok {a : α} (h : r (.ofBytes bytes) = .ok a next) :
    next.taken ≤ bytes.length := by
  have hafter : r.after (.ofBytes bytes) = next := by rw [after, h]
  exact hafter ▸ (after_ofBytes r bytes).1

/-- So has a reader that fails. -/
theorem taken_le_of_error {fault : Fault} (h : r (.ofBytes bytes) = .error fault next) :
    next.taken ≤ bytes.length := by
  have hafter : r.after (.ofBytes bytes) = next := by rw [after, h]
  exact hafter ▸ (after_ofBytes r bytes).1

end Taking

end Reader

end Disasm8086
