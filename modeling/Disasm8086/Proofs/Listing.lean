/-
Listings are put together at instruction boundaries. If the first of two
streams can be listed to its end, the listing of both is the listing of
the first and then that of the second, whose offsets count from the end
of the first; so no instruction at the end of the first takes bytes of
the second. If the first has a fault other than that it ends too early,
nothing behind it matters.

# The relation

`Listing start bytes items` says what a walk yields that has reached the
offset `start` and has `bytes` ahead. It has a constructor for each of
the three things that a step can be, as a walk has, but it speaks of no
walk: the bytes in front of `start` do not occur. A walk yields a listing
(`Disassembler.listing_items`) and no other (`Listing.items_eq`), and the
laws about two streams are inductions over the listing of the first.
-/
import Disasm8086.Proofs.Partition
import Disasm8086.Proofs.PrefixCode

namespace Disasm8086

-- ========================================================== the relation

/-- What a walk yields that has reached `start` and has `bytes` ahead. -/
inductive Listing : Nat → List UInt8 → List Item → Prop where
  | done (start : Nat) : Listing start [] []
  | step {start : Nat} (l : Layout) {rest : List UInt8} {items : List Item}
      (behind : Listing (start + l.bytes.length) rest items) :
      Listing start (l.bytes ++ rest) (.ok ⟨start, l.bytes, l.instruction⟩ :: items)
  | fault (start : Nat) {bytes : List UInt8} {fault : Fault} {next : Feed}
      (hbytes : bytes ≠ [])
      (hread : Instruction.read (.ofBytes bytes) = .error fault next) :
      Listing start bytes [.error ⟨start, fault⟩]

namespace Disassembler

/-- Every walk that has not failed yields a listing. -/
theorem listing_items (d : Disassembler) (hfailed : d.failed = false) :
    Listing d.offset d.cursor.rest d.items := by
  by_cases hbytes : d.cursor.rest = []
  · rw [items_of_next_none (next_of_exhausted hbytes), hbytes]
    exact .done d.offset
  cases hread : Instruction.read (.ofBytes d.cursor.rest) with
  | error fault feed =>
      have hnext := next_of_fault hfailed hbytes hread
      rw [items_of_next_some hnext, items_of_next_none (next_of_failed rfl)]
      exact .fault d.offset hbytes hread
  | ok i feed =>
      obtain ⟨l, rest, h, -, -⟩ := exists_layout_of_read_ok hread
      have hrest := Cursor.rest_advance_length h
      have hshorter := l.length_bytes_pos
      have hbehind := listing_items
        ⟨d.cursor.advance l.bytes.length (Cursor.length_le_remaining h), false⟩ rfl
      rw [hrest] at hbehind
      rw [items_of_next_some (next_of_layout hfailed l h), h]
      exact .step l hbehind
termination_by d.cursor.rest.length
decreasing_by
  rw [hrest, h, List.length_append]
  omega

end Disassembler

namespace Listing

variable {start : Nat} {bytes : List UInt8} {items : List Item}

/-- The listing is the only one that a walk yields. -/
theorem items_eq (h : Listing start bytes items) {d : Disassembler} (hfailed : d.failed = false)
    (hoffset : d.offset = start) (hrest : d.cursor.rest = bytes) : d.items = items := by
  induction h generalizing d with
  | done start => exact Disassembler.items_of_next_none (Disassembler.next_of_exhausted hrest)
  | @step start l rest items _ ih =>
      have hahead := Cursor.rest_advance_length hrest
      have hbehind := @ih
        ⟨d.cursor.advance l.bytes.length (Cursor.length_le_remaining hrest), false⟩ rfl
        (congrArg (· + l.bytes.length) hoffset) hahead
      rw [Disassembler.items_of_next_some (Disassembler.next_of_layout hfailed l hrest), hoffset,
        hbehind]
  | @fault start bytes fault next hbytes hread =>
      subst hrest
      rw [Disassembler.items_of_next_some (Disassembler.next_of_fault hfailed hbytes hread),
        Disassembler.items_of_next_none (Disassembler.next_of_failed rfl), hoffset]

/-- A listing of the whole stream is what disassembling yields. -/
theorem disassemble_eq (h : Listing 0 bytes items) : disassemble bytes = items :=
  h.items_eq rfl rfl rfl

end Listing

theorem listing_disassemble (bytes : List UInt8) : Listing 0 bytes (disassemble bytes) :=
  (Disassembler.ofBytes bytes).listing_items rfl

-- =========================================================== two streams

/-- The same item in a stream that has `n` more bytes in front. -/
def Item.shift (n : Nat) : Item → Item
  | .ok d => .ok { d with offset := d.offset + n }
  | .error e => .error (e.shift n)

namespace Listing

variable {start : Nat} {bytes : List UInt8} {items : List Item}

/-- What is ahead decides the items, where it starts only their offsets. -/
theorem shift (h : Listing start bytes items) (n : Nat) :
    Listing (start + n) bytes (items.map (Item.shift n)) := by
  induction h with
  | done start => exact .done (start + n)
  | @step start l rest items _ ih =>
      rw [Nat.add_right_comm] at ih
      exact .step l ih
  | fault start hbytes hread => exact .fault (start + n) hbytes hread

/-- Behind a listing without an error the walk goes on. -/
theorem append {more : List UInt8} {behind : List Item} (h : Listing start bytes items)
    (hclean : ∀ e, Except.error e ∉ items)
    (hbehind : Listing (start + bytes.length) more behind) :
    Listing start (bytes ++ more) (items ++ behind) := by
  induction h with
  | done start => exact hbehind
  | @step start l rest items _ ih =>
      rw [List.length_append, ← Nat.add_assoc] at hbehind
      rw [List.append_assoc]
      exact .step l (ih (fun e he => hclean e (List.mem_cons_of_mem _ he)) hbehind)
  | @fault start bytes fault next hbytes hread =>
      exact absurd List.mem_cons_self (hclean ⟨start, fault⟩)

/-- Behind an error nothing matters, unless more bytes might mend it. -/
theorem append_of_error {e : DecodeError} (h : Listing start bytes items)
    (herror : Except.error e ∈ items) (hsettled : e.isTruncation = false) (more : List UInt8) :
    Listing start (bytes ++ more) items := by
  induction h with
  | done start => cases herror
  | @step start l rest items _ ih =>
      have hlater : Except.error e ∈ items := (List.mem_cons.mp herror).resolve_left nofun
      rw [List.append_assoc]
      exact .step l (ih hlater)
  | @fault start bytes fault next hbytes hread =>
      have he : e = ⟨start, fault⟩ := Except.error.inj (List.mem_singleton.mp herror)
      rw [he] at hsettled
      exact .fault start (List.append_ne_nil_of_left_ne_nil hbytes more)
        (read_append_of_error hread hsettled more)

theorem items_ne_nil (h : Listing start bytes items) (hbytes : bytes ≠ []) : items ≠ [] := by
  cases h with
  | done => exact absurd rfl hbytes
  | step => exact List.cons_ne_nil _ _
  | fault => exact List.cons_ne_nil _ _

end Listing

/-- Behind a stream that decodes to its end, another one is disassembled as
if it stood alone, its offsets apart. -/
theorem disassemble_append {a : List UInt8} (h : ∀ e, Except.error e ∉ disassemble a)
    (b : List UInt8) :
    disassemble (a ++ b) = disassemble a ++ (disassemble b).map (Item.shift a.length) := by
  have hbehind := (listing_disassemble b).shift a.length
  exact ((listing_disassemble a).append h hbehind).disassemble_eq

/-- Behind an error that more bytes cannot mend, nothing more is looked at. -/
theorem disassemble_append_of_error {a : List UInt8} {e : DecodeError}
    (h : Except.error e ∈ disassemble a) (hsettled : e.isTruncation = false) (b : List UInt8) :
    disassemble (a ++ b) = disassemble a :=
  ((listing_disassemble a).append_of_error h hsettled b).disassemble_eq

-- ============================================================ traversal

section Traversal

variable {α β ε ε' : Type} {f : α → Except ε β}

/-- A traversal that succeeds has found no error. -/
theorem length_of_mapM_eq_ok {xs : List α} {ys : List β} (h : xs.mapM f = .ok ys) :
    ys.length = xs.length ∧ ∀ x ∈ xs, ∀ e, f x ≠ .error e := by
  induction xs generalizing ys with
  | nil =>
      cases h
      exact ⟨rfl, nofun⟩
  | cons x xs ih =>
      rw [List.mapM_cons] at h
      cases hx : f x with
      | error e => rw [hx] at h; cases h
      | ok y =>
          cases hxs : xs.mapM f with
          | error e => rw [hx, hxs] at h; cases h
          | ok zs =>
              rw [hx, hxs] at h
              cases h
              obtain ⟨hlength, hclean⟩ := ih hxs
              refine ⟨congrArg (· + 1) hlength, fun x' hmem e => ?_⟩
              rcases List.mem_cons.mp hmem with rfl | hmem
              · rw [hx]
                nofun
              · exact hclean x' hmem e

theorem exists_of_mapM_eq_error {xs : List α} {e : ε} (h : xs.mapM f = .error e) :
    ∃ x ∈ xs, f x = .error e := by
  induction xs with
  | nil => cases h
  | cons x xs ih =>
      rw [List.mapM_cons] at h
      cases hx : f x with
      | error e' =>
          rw [hx] at h
          cases h
          exact ⟨x, List.mem_cons_self, hx⟩
      | ok y =>
          cases hxs : xs.mapM f with
          | ok ys => rw [hx, hxs] at h; cases h
          | error e' =>
              rw [hx, hxs] at h
              cases h
              obtain ⟨x', hmem, hx'⟩ := ih hxs
              exact ⟨x', List.mem_cons_of_mem x hmem, hx'⟩

/-- If the first elements succeed, the others decide. -/
theorem mapM_append_of_ok {xs : List α} {ys : List β} (h : xs.mapM f = .ok ys) (more : List α) :
    (xs ++ more).mapM f = (more.mapM f).map (ys ++ ·) := by
  rw [List.mapM_append, h]
  cases more.mapM f <;> rfl

/-- Errors may be changed one by one or at the end. -/
theorem mapM_mapError (g : ε → ε') (xs : List α) :
    xs.mapM (fun x => (f x).mapError g) = (xs.mapM f).mapError g := by
  induction xs with
  | nil => rfl
  | cons x xs ih =>
      rw [List.mapM_cons, List.mapM_cons, ih]
      cases f x with
      | error e => rfl
      | ok y => cases xs.mapM f <;> rfl

end Traversal

-- ================================================================= lines

section Lines

variable {bytes : List UInt8} {mode : ValueMode} {lines : List String}

/-- The line of an item, or its error. -/
def Item.line (mode : ValueMode) (item : Item) : Except DecodeError String :=
  item.map fun d => d.instruction.render mode

/-- An item without a line is an error. -/
theorem Item.eq_error_of_line {item : Item} {e : DecodeError}
    (h : Item.line mode item = .error e) : item = .error e := by
  cases item with
  | ok d => cases h
  | error e' => cases h; rfl

/-- The place of an item does not show in its line, only in its error. -/
theorem Item.line_shift (n : Nat) (item : Item) :
    Item.line mode (Item.shift n item) = (Item.line mode item).mapError (·.shift n) := by
  cases item <;> rfl

/-- The lines are those of the items, up to the first error. -/
theorem assemblyLines_eq_mapM (bytes : List UInt8) (mode : ValueMode) :
    assemblyLines bytes mode = (disassemble bytes).mapM (Item.line mode) := by
  refine congrArg (fun f => (disassemble bytes).mapM f) (funext fun item => ?_)
  cases item <;> rfl

theorem assembly_eq_map (bytes : List UInt8) (mode : ValueMode) :
    assembly bytes mode = (assemblyLines bytes mode).map "\n".intercalate := by
  unfold assembly
  cases assemblyLines bytes mode <;> rfl

/-- If there are lines, no item is an error. -/
theorem error_not_mem_of_assemblyLines_ok (h : assemblyLines bytes mode = .ok lines)
    (e : DecodeError) : Except.error e ∉ disassemble bytes := by
  rw [assemblyLines_eq_mapM] at h
  exact fun hmem => (length_of_mapM_eq_ok h).2 _ hmem e rfl

/-- If there is an error, it is that of an item. -/
theorem error_mem_of_assemblyLines_error {e : DecodeError}
    (h : assemblyLines bytes mode = .error e) : Except.error e ∈ disassemble bytes := by
  rw [assemblyLines_eq_mapM] at h
  obtain ⟨item, hmem, hitem⟩ := exists_of_mapM_eq_error h
  rw [← Item.eq_error_of_line hitem]
  exact hmem

theorem lines_ne_nil (h : assemblyLines bytes mode = .ok lines) (hbytes : bytes ≠ []) :
    lines ≠ [] := by
  have hitems := List.length_pos_iff.mpr ((listing_disassemble bytes).items_ne_nil hbytes)
  rw [assemblyLines_eq_mapM] at h
  rw [← (length_of_mapM_eq_ok h).1] at hitems
  exact List.length_pos_iff.mp hitems

/-- The lines of a stream that goes on after its end. -/
theorem assemblyLines_append (h : assemblyLines bytes mode = .ok lines) (more : List UInt8) :
    assemblyLines (bytes ++ more) mode
      = ((assemblyLines more mode).mapError (·.shift bytes.length)).map (lines ++ ·) := by
  have hclean := error_not_mem_of_assemblyLines_ok h
  have hline : Item.line mode ∘ Item.shift bytes.length
      = fun item => (Item.line mode item).mapError (·.shift bytes.length) :=
    funext (Item.line_shift bytes.length)
  rw [assemblyLines_eq_mapM] at h ⊢
  rw [disassemble_append hclean, mapM_append_of_ok h, List.mapM_map, hline, mapM_mapError,
    assemblyLines_eq_mapM]

/-- Lines of two streams are joined by one line break, unless there are
none of the one or of the other. -/
theorem intercalate_lines {a b : List UInt8} {lines' : List String}
    (ha : assemblyLines a mode = .ok lines) (hb : assemblyLines b mode = .ok lines') :
    "\n".intercalate (lines ++ lines')
      = if a = [] then "\n".intercalate lines'
        else if b = [] then "\n".intercalate lines
        else "\n".intercalate lines ++ "\n" ++ "\n".intercalate lines' := by
  have hempty : assemblyLines [] mode = .ok [] := by
    rw [assemblyLines_eq_mapM, (Listing.done 0).disassemble_eq]
    rfl
  split
  case isTrue h =>
    rw [h, hempty] at ha
    cases ha
    rfl
  case isFalse h =>
    split
    case isTrue h' =>
      rw [h', hempty] at hb
      cases hb
      rw [List.append_nil]
    case isFalse h' =>
      exact String.intercalate_append_of_ne_nil (lines_ne_nil ha h) (lines_ne_nil hb h')

end Lines

-- ========================================================= the statement

/-- The text of two streams is put together from their texts, provided that
the first one ends at an instruction boundary. An error of the second is
reported at its place behind the first. An error of the first stands,
unless it is that the first stream ends too early. -/
theorem assembly_append (a b : List UInt8) (mode : ValueMode) :
    (∀ s, assembly a mode = .ok s →
      (∀ t, assembly b mode = .ok t → assembly (a ++ b) mode
          = .ok (if a = [] then t else if b = [] then s else s ++ "\n" ++ t))
        ∧ ∀ e, assembly b mode = .error e → assembly (a ++ b) mode = .error (e.shift a.length))
      ∧ ∀ e, assembly a mode = .error e → e.isTruncation = false →
        assembly (a ++ b) mode = .error e := by
  simp only [assembly_eq_map]
  refine ⟨fun s hs => ?_, fun e he hsettled => ?_⟩
  · cases ha : assemblyLines a mode with
    | error e => rw [ha] at hs; cases hs
    | ok lines =>
        rw [ha] at hs
        cases hs
        rw [assemblyLines_append ha]
        cases hb : assemblyLines b mode with
        | error e =>
            refine ⟨nofun, fun e' he' => ?_⟩
            cases he'
            rfl
        | ok lines' =>
            refine ⟨fun t ht => ?_, nofun⟩
            cases ht
            exact congrArg Except.ok (intercalate_lines ha hb)
  · cases ha : assemblyLines a mode with
    | ok lines => rw [ha] at he; cases he
    | error e' =>
        rw [ha] at he
        cases he
        rw [assemblyLines_eq_mapM, disassemble_append_of_error
          (error_mem_of_assemblyLines_error ha) hsettled, ← assemblyLines_eq_mapM, ha]
        rfl

/-- A move and a jump, in one stream or in two; and a byte behind them that
is no opcode, reported at its place in either stream and not undone by
what follows it. -/
theorem assembly_append_of_move_and_jump :
    assembly ([0x89, 0xD9] ++ [0x7D, 0xEC]) .integer = .ok ("MOV CX, BX" ++ "\n" ++ "JGE -20")
      ∧ assembly ([0x89, 0xD9] ++ [0x7D, 0xEC, 0x0F]) .integer
          = .error ⟨4, .unknownOpcode 0x0F⟩
      ∧ assembly ([0x7D, 0xEC, 0x0F] ++ [0x89, 0xD9]) .integer
          = .error ⟨2, .unknownOpcode 0x0F⟩ := by
  have hmove : assembly [0x89, 0xD9] .integer = .ok "MOV CX, BX" := by decide +kernel
  have hjump : assembly [0x7D, 0xEC] .integer = .ok "JGE -20" := by decide +kernel
  have hfault : assembly [0x7D, 0xEC, 0x0F] .integer = .error ⟨2, .unknownOpcode 0x0F⟩ := by
    decide +kernel
  exact ⟨((assembly_append _ _ _).1 _ hmove).1 _ hjump,
    ((assembly_append _ _ _).1 _ hmove).2 _ hfault, (assembly_append _ _ _).2 _ hfault rfl⟩

end Disasm8086
