/-
Every instruction of a listing is one line that counts. A listing is
compared with a reference text line by line, after blank lines, comments
and blanks around a line have been taken away; so a line that was empty,
broken or led by a semicolon would shift all lines behind it. No line
is: whatever an instruction is, its text starts with a word and ends in
a character that shows (`Instruction.ownLine_render`). Hence the lines
of a listing that count are the texts of its instructions, one each.

The text is followed from its end, as it is put together: registers and
numbers are words, a memory operand ends in a bracket, and whatever is
written in front of an operand has no line feed in it (`Closed.prepend`).
-/
import Disasm8086.Proofs.AssemblyText
import Disasm8086.Proofs.Listing
import Disasm8086.Proofs.SignificantLines

namespace Disasm8086

open Text Assembly

-- =========================================================== characters

/-- Whether a character shows and starts no comment. -/
def isVisible (c : Char) : Bool := !isBlank c && c != ';'

/-- Letters and digits show. -/
theorem isVisible_of_isAlphanum {c : Char} (h : c.isAlphanum = true) : isVisible c = true := by
  have hcode : 48 ≤ c.toNat ∧ c.toNat ≤ 57 ∨ 65 ≤ c.toNat ∧ c.toNat ≤ 122 := by
    delta Char.isAlphanum Char.isAlpha Char.isUpper Char.isLower Char.isDigit at h
    simp only [Bool.or_eq_true, Bool.and_eq_true, decide_eq_true_eq, ge_iff_le,
      UInt32.le_iff_toNat_le] at h
    rcases h with (⟨hlow, hhigh⟩ | ⟨hlow, hhigh⟩) | ⟨hlow, hhigh⟩
    · exact Or.inr ⟨hlow, hhigh.trans (by decide)⟩
    · exact Or.inr ⟨le_trans (by decide) hlow, hhigh⟩
    · exact Or.inl ⟨hlow, hhigh⟩
  have hcomment : c ≠ ';' := by
    rintro rfl
    revert hcode
    decide
  simp only [isVisible, isBlank, blankRanges, List.any_cons, List.any_nil]
  grind

/-- Whether a text is a word: there is something, and all of it shows. -/
def isWord (text : List Char) : Bool := !text.isEmpty && text.all isVisible

theorem Register.isWord_name (r : Register) : isWord r.name.toList = true := by
  cases r <;> decide

theorem Mnemonic.isWord_text (m : Mnemonic) : isWord m.text.toList = true := by
  have hall : (all.all fun m => isWord m.text.toList) = true := by decide +kernel
  exact List.all_eq_true.mp hall m m.mem_all

theorem Prefix.isWord_word (p : Prefix) : isWord p.word.toList = true := by
  rcases p with (_ | _ | _ | _) | _ | _ | _ <;> decide

/-- A numeral is a word, with or without a sign. -/
theorem isWord_of_signed {text : List Char} {n : Int} (h : Signed text n) :
    isWord text = true := by
  have hne : text ≠ [] := by
    rintro rfl
    exact absurd h.leads (by decide)
  rw [isWord, List.isEmpty_eq_false_iff.mpr hne, Bool.not_false, Bool.true_and, List.all_eq_true]
  intro c hc
  rcases h.plain c hc with halnum | rfl
  · exact isVisible_of_isAlphanum halnum
  · decide

-- ================================================================ ends

/-- The text is on one line and ends in a character that shows. -/
structure Closed (text : List Char) : Prop where
  unbroken : '\n' ∉ text
  ends : text.getLast?.any isVisible = true

variable {text : List Char}

/-- A line feed does not show. -/
theorem newline_not_mem_of_visible (h : ∀ c ∈ text, isVisible c = true) : '\n' ∉ text :=
  fun hc => absurd (h _ hc) (by decide)

/-- A word is closed. -/
theorem Closed.of_isWord (h : isWord text = true) : Closed text := by
  rw [isWord, Bool.and_eq_true, Bool.not_eq_true', List.isEmpty_eq_false_iff,
    List.all_eq_true] at h
  refine ⟨newline_not_mem_of_visible h.2, ?_⟩
  rw [List.getLast?_eq_some_getLast h.1]
  exact h.2 _ (List.getLast_mem h.1)

/-- Whatever stands in front, the end stays. -/
theorem Closed.prepend {front : List Char} (hfront : '\n' ∉ front) (h : Closed text) :
    Closed (front ++ text) := by
  constructor
  case unbroken =>
    intro hc
    rcases List.mem_append.mp hc with hc | hc
    · exact hfront hc
    · exact h.unbroken hc
  case ends =>
    obtain ⟨c, hlast, hc⟩ := (Option.any_eq_true ..).mp h.ends
    rw [List.getLast?_append, hlast]
    exact hc

/-- A text that starts with a word starts with a character that shows. -/
theorem head?_append_of_isWord (h : isWord text = true) (rest : List Char) :
    (text ++ rest).head?.any isVisible = true := by
  cases text with
  | nil => cases h
  | cons c text =>
      rw [isWord, List.all_cons] at h
      simp only [Bool.and_eq_true] at h
      exact h.2.1

-- ============================================================ operands

/-- What stands in front of the bracket is on one line. -/
theorem newline_not_mem_headerText (header : SizeMark × Option Segment) :
    '\n' ∉ (headerText header).toList := by
  rcases header with ⟨_ | _ | _ | _, _ | _ | _ | _ | _⟩ <;> decide

theorem newline_not_mem_stemText (mode : AddressingMode) (sign : Int) :
    '\n' ∉ (stemText (mode, sign)).toList := by
  have hmode : '\n' ∉ mode.render.toList := by cases mode <;> decide +kernel
  unfold stemText
  rw [String.toList_append, List.mem_append, not_or]
  refine ⟨hmode, ?_⟩
  split
  · decide
  · split <;> decide

namespace Instruction

variable (i : Instruction) (mode : ValueMode)

/-- An operand is a word, or it ends in a bracket. -/
theorem closed_renderOperand (operand : Operand) :
    Closed (i.renderOperand mode operand).toList := by
  cases operand with
  | register r => exact .of_isWord r.isWord_name
  | immediate c => exact .of_isWord (isWord_of_signed (c.signed_render mode))
  | memory m =>
      obtain ⟨numeral, haddress, hnumeral⟩ := m.exists_numeral mode
      have htext : (i.renderOperand mode (.memory m)).toList
          = ((headerText (i.sizeMark m, m.override)).toList ++ ['['])
            ++ ((stemText (m.mode, m.sign)).toList ++ (numeral ++ [']'])) := by
        rw [← List.append_assoc (stemText _).toList, ← haddress]
        simp only [renderOperand, MemoryReference.render, headerText, i.text_sizeMark,
          String.toList_append, List.append_assoc]
        rfl
      have hdigits : '\n' ∉ numeral :=
        newline_not_mem_of_visible fun c hc => isVisible_of_isAlphanum (hnumeral.plain c hc)
      rw [htext]
      refine .prepend ?_ (.prepend (newline_not_mem_stemText _ _) (.prepend hdigits ?_))
      · simp [newline_not_mem_headerText]
      · exact .of_isWord (by decide)

/-- An operand with others behind it ends as the last of them does. -/
theorem closed_renderFollowing (before : Operand) (rest : List Operand) :
    Closed ((i.renderOperand mode before).toList
      ++ (i.renderFollowing mode before rest).toList) := by
  induction rest generalizing before with
  | nil =>
      rw [renderFollowing, String.toList_empty, List.append_nil]
      exact i.closed_renderOperand mode before
  | cons operand rest ih =>
      have hbefore := (i.closed_renderOperand mode before).unbroken
      have hdivider : '\n' ∉ (if before.isFarSegment then ":" else ", ").toList := by
        split <;> decide
      rw [renderFollowing, String.toList_append, String.toList_append, List.append_assoc]
      exact .prepend hbefore (.prepend hdivider (ih operand))

/-- Operands end as the last of them does. -/
theorem closed_renderOperands {operands : List Operand} (h : operands ≠ []) :
    Closed (i.renderOperands mode operands).toList := by
  obtain ⟨operand, rest, rfl⟩ := List.exists_cons_of_ne_nil h
  rw [renderOperands, String.toList_append, String.toList_append, List.append_assoc]
  exact .prepend (by decide) (i.closed_renderFollowing mode operand rest)

-- =============================================================== lines

/-- With or without operands, what follows the prefixes is closed. -/
theorem closed_behind_prefixes :
    Closed (i.mnemonic.text.toList ++ (i.renderOperands mode i.operands).toList) := by
  have hword := Closed.of_isWord i.mnemonic.isWord_text
  by_cases hnone : i.operands = []
  · rw [hnone, renderOperands, String.toList_empty, List.append_nil]
    exact hword
  · exact .prepend hword.unbroken (i.closed_renderOperands mode hnone)

/-- The prefixes are on the same line. -/
theorem newline_not_mem_prefixText : '\n' ∉ i.prefixText.toList := by
  rw [i.prefixText_toList, List.mem_flatMap]
  rintro ⟨p, -, hc⟩
  rcases List.mem_append.mp hc with hc | hc
  · exact (Closed.of_isWord p.isWord_word).unbroken hc
  · exact absurd hc (by decide)

/-- The line starts with a prefix or with the mnemonic. -/
theorem leads_render : (i.render mode).toList.head?.any isVisible = true := by
  rw [render, String.toList_append, String.toList_append, i.prefixText_toList, List.append_assoc]
  cases i.shownPrefixes with
  | nil => exact head?_append_of_isWord i.mnemonic.isWord_text _
  | cons p rest =>
      rw [List.flatMap_cons, List.append_assoc, List.append_assoc]
      exact head?_append_of_isWord p.isWord_word _

/-- The text of every instruction is a line of its own. -/
theorem ownLine_render : OwnLine (i.render mode) := by
  have hclosed : Closed (i.render mode).toList := by
    rw [render, String.toList_append, String.toList_append, List.append_assoc]
    exact .prepend i.newline_not_mem_prefixText (i.closed_behind_prefixes mode)
  obtain ⟨first, hfirst, hvisible⟩ := (Option.any_eq_true ..).mp (i.leads_render mode)
  obtain ⟨last, hlast, hvisible'⟩ := (Option.any_eq_true ..).mp hclosed.ends
  simp only [isVisible, Bool.and_eq_true, Bool.not_eq_true', bne_iff_ne] at hvisible hvisible'
  constructor
  case nonempty =>
    intro hempty
    rw [hempty] at hfirst
    cases hfirst
  case unbroken => exact hclosed.unbroken
  case leading =>
    intro c hc
    rw [hfirst] at hc
    exact Option.some.inj hc ▸ hvisible.1
  case trailing =>
    intro c hc
    rw [hlast] at hc
    exact Option.some.inj hc ▸ hvisible'.1
  case uncommented =>
    rw [hfirst]
    exact fun hc => hvisible.2 (Option.some.inj hc)

end Instruction

-- ============================================================ listings

/-- A listing without an error has a line for each of its instructions. -/
theorem exists_of_mapM_line {mode : ValueMode} {items : List Item} {lines : List String}
    (h : items.mapM (Item.line mode) = .ok lines) :
    ∃ found : List Disassembly, items = found.map .ok
      ∧ lines = found.map (·.instruction.render mode) := by
  induction items generalizing lines with
  | nil =>
      cases h
      exact ⟨[], rfl, rfl⟩
  | cons item items ih =>
      rw [List.mapM_cons] at h
      cases item with
      | error e => cases h
      | ok d =>
          cases hrest : items.mapM (Item.line mode) with
          | error e =>
              rw [hrest] at h
              cases h
          | ok rest =>
              rw [hrest] at h
              cases h
              obtain ⟨found, rfl, rfl⟩ := ih hrest
              exact ⟨d :: found, rfl, rfl⟩

/-- A text is the lines of the instructions that the bytes decode to. -/
theorem exists_of_assembly {bytes : List UInt8} {mode : ValueMode} {text : String}
    (h : assembly bytes mode = .ok text) :
    ∃ found : List Disassembly, disassemble bytes = found.map .ok
      ∧ text = "\n".intercalate (found.map (·.instruction.render mode)) := by
  rw [assembly_eq_map, assemblyLines_eq_mapM] at h
  cases hlines : (disassemble bytes).mapM (Item.line mode) with
  | error e =>
      rw [hlines] at h
      cases h
  | ok lines =>
      rw [hlines] at h
      cases h
      obtain ⟨found, hitems, rfl⟩ := exists_of_mapM_line hlines
      exact ⟨found, hitems, rfl⟩

-- ======================================================= the statement

/-- The lines of a listing that count are the texts of its instructions, in
their order and just as they were written. So a reference text that
compares as equal has one line for each instruction, and a listing
compares as equal with itself in lower case. -/
theorem assembly_keeps_every_line {bytes : List UInt8} {mode : ValueMode} {text : String}
    (h : assembly bytes mode = .ok text) :
    ∃ found : List Disassembly, disassemble bytes = found.map .ok
      ∧ significantLines text = found.map (·.instruction.render mode)
      ∧ (∀ d ∈ found, OwnLine (d.instruction.render mode))
      ∧ (∀ reference, compareListing reference text = .ok () →
          (significantLines reference).length = found.length)
      ∧ compareListing text text.toLower = .ok ()
      ∧ compareListing text.toLower text = .ok () := by
  obtain ⟨found, hitems, rfl⟩ := exists_of_assembly h
  have hlines : significantLines ("\n".intercalate (found.map (·.instruction.render mode)))
      = found.map (·.instruction.render mode) := by
    refine significantLines_intercalate fun line hline => ?_
    obtain ⟨d, -, rfl⟩ := List.mem_map.mp hline
    exact d.instruction.ownLine_render mode
  refine ⟨found, hitems, hlines, fun d _ => d.instruction.ownLine_render mode, ?_,
    compareListing_toLower _⟩
  intro reference hsame
  have hlength := (compareLines_eq_ok_iff.mp hsame).length_eq
  rw [hlines, List.length_map] at hlength
  exact hlength

/-- A bare operation behind three prefixes, a far jump and an addition to
memory, in hexadecimal. -/
theorem assembly_keeps_every_line_of_three_shapes :
    ∃ text, assembly [0x2E, 0xF0, 0xF3, 0x90, 0xEA, 0x34, 0x12, 0x00, 0xF0, 0x80, 0x47, 0xFC, 0x05]
        .hex = .ok text
      ∧ text = "CS LOCK REP NOP\nJMP 0xF000:0x1234\nADD BYTE [BX - 0x04], 0x05"
      ∧ (significantLines text).length = 3
      ∧ compareListing text.toLower text = .ok () := by
  have htext : assembly [0x2E, 0xF0, 0xF3, 0x90, 0xEA, 0x34, 0x12, 0x00, 0xF0, 0x80, 0x47, 0xFC,
      0x05] .hex = .ok "CS LOCK REP NOP\nJMP 0xF000:0x1234\nADD BYTE [BX - 0x04], 0x05" := by
    decide +kernel
  have hcount : (disassemble [0x2E, 0xF0, 0xF3, 0x90, 0xEA, 0x34, 0x12, 0x00, 0xF0, 0x80, 0x47,
      0xFC, 0x05]).length = 3 := by decide +kernel
  obtain ⟨found, hitems, hlines, -, -, -, hlower⟩ := assembly_keeps_every_line htext
  rw [hitems, List.length_map] at hcount
  exact ⟨_, htext, rfl, by rw [hlines, List.length_map, hcount], hlower⟩

end Disasm8086
