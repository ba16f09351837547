/-
What the text of a memory operand says. Between the brackets stands a
sum: names of registers and at most one numeral, each but the first with
a sign. Here the text is read as that sum, by a reader that knows names,
signs and numerals and has no list of addressing modes, and the sum is
worked out for given contents of the registers. The segment is named in
front of the bracket; where it is not, the text still tells it, because
sums with `BP` in them lie in the stack segment and all others in the
data segment.

The main statement is that this is the address which the program computes
for the operand (`MemoryReference.render_denotes_address`), for every
operand, also for those that no encoding has.

# The argument

A rendered address is one word for each term, so reading it gives the
terms back (`AddressText.read?_render`). Text and program then add the
same terms, the text in whole numbers and the program in words: the two
sums agree modulo 2^16.
-/
import Disasm8086.Proofs.AssemblyText
import Mathlib.Algebra.Ring.Int.Defs

namespace Disasm8086

open Text

namespace Assembly

-- ============================================================== sums

/-- The sign in front of a summand. -/
inductive Sign where
  | plus
  | minus
  deriving DecidableEq, Repr

namespace Sign

/-- The character that stands for a sign. -/
def symbol : Sign → Char
  | .plus => '+'
  | .minus => '-'

/-- What a sign makes of the number behind it. -/
def factor : Sign → Int
  | .plus => 1
  | .minus => -1

end Sign

/-- What is added up in an address. A constant is decimal or hexadecimal. -/
inductive Term where
  | register (r : Register)
  | constant (style : ValueMode) (n : Nat)
  deriving DecidableEq, Repr

/-- The number that a term stands for, given what the registers hold. -/
def Term.value (regs : RegisterFile) : Term → Int
  | .register r => (regs r).toNat
  | .constant _ n => n

/-- What the text of a memory operand spells out. -/
structure AddressText where
  override : Option Segment
  summands : List (Sign × Term)
  deriving DecidableEq, Repr

namespace AddressText

/-- The sum of the terms, with their signs. -/
def value (a : AddressText) (regs : RegisterFile) : Int :=
  (a.summands.map fun s => s.1.factor * s.2.value regs).sum

/-- The constants of the sum, with their signs. -/
def constants (a : AddressText) : List (ValueMode × Int) :=
  a.summands.filterMap fun
    | (sign, .constant style n) => some (style, sign.factor * n)
    | _ => none

/-- The named segment, or else the one that goes with the registers. -/
def segment (a : AddressText) : Segment :=
  a.override.getD (if a.summands.any (·.2 == .register .BP) then .SS else .DS)

-- =========================================================== reading

/-- Hexadecimal digits are written with capital letters. -/
def isHexDigit (c : Char) : Bool := c.isDigit || ('A'.toNat ≤ c.toNat && c.toNat ≤ 'F'.toNat)

/-- A constant in one of the two styles, and the style it is in. -/
def readConstant? : List Char → Option (ValueMode × Nat)
  | '0' :: 'x' :: digits =>
    if !digits.isEmpty && digits.all isHexDigit then some (.hex, readDigits 16 digits) else none
  | digits =>
    if !digits.isEmpty && digits.all Char.isDigit then some (.integer, readDigits 10 digits)
    else none

/-- A word that is the name of a register or a constant. -/
def readTerm? (word : List Char) : Option Term :=
  match readConstant? word with
  | some (style, n) => some (.constant style n)
  | none => (lookup Register.name Register.all word).map .register

/-- A word that is a sign. -/
def readSign? (word : List Char) : Option Sign :=
  if word = ['+'] then some .plus else if word = ['-'] then some .minus else none

/-- Reads signs and terms in turn. -/
def readFollowing? : List (List Char) → Option (List (Sign × Term))
  | [] => some []
  | [_] => none
  | sign :: word :: words => do
    let s ← readSign? sign
    let t ← readTerm? word
    let following ← readFollowing? words
    return (s, t) :: following

/-- Reads a sum of words with blanks between them. The first term has no
sign. -/
def readSum? (text : List Char) : Option (List (Sign × Term)) :=
  match text.splitOn ' ' with
  | [] => none
  | word :: words => do
    let t ← readTerm? word
    let following ← readFollowing? words
    return (.plus, t) :: following

/-- What stands in front of the bracket. -/
def overrideText : Option Segment → String
  | some segment => segment.name ++ ":"
  | none => ""

/-- Reads a memory operand: an override, then a sum in brackets. -/
def read? (text : String) : Option AddressText := do
  let override ← lookup overrideText (none :: Segment.all.map some)
    (text.toList.takeWhile (· != '['))
  match text.toList.dropWhile (· != '[') with
  | '[' :: inside =>
    if inside.getLast? = some ']' then
      let summands ← readSum? inside.dropLast
      return { override, summands }
    else none
  | _ => none

example : (read? "ES:[BP + SI - 0x0080]").map (fun a => (a.segment, a.constants))
    = some (.ES, [(.hex, -128)]) := by decide +kernel

example : (read? "[2 + BP]").map segment = some .SS := by decide +kernel

example : read? "[BP - 0x]" = none := by decide +kernel

-- ============================================================= words

/-- The word is how a term is written. -/
structure Spells (word : List Char) (t : Term) : Prop where
  read : readTerm? word = some t
  plain : ∀ c ∈ word, c.isAlphanum = true

theorem spells_register (r : Register) : Spells r.name.toList (.register r) := by
  constructor
  case read => cases r <;> decide +kernel
  case plain =>
    have hall : r.name.toList.all Char.isAlphanum = true := by cases r <;> decide +kernel
    exact List.all_eq_true.mp hall

/-- A decimal numeral is read as its number, in decimal style. -/
theorem spells_natural (n : Nat) : Spells (natural n).toList (.constant .integer n) := by
  have hunsigned := unsigned_natural n
  refine ⟨?_, hunsigned.plain⟩
  have hvalue := hunsigned.value
  have hdigits : ∀ c ∈ (natural n).toList, c.isDigit = true := by
    intro c hc
    rw [natural, String.toList_ofList] at hc
    exact Nat.isDigit_of_mem_toDigits (by decide) (by decide) hc
  have hne : (natural n).toList ≠ [] := by
    rw [natural, String.toList_ofList]
    exact Nat.toDigits_ne_nil
  generalize (natural n).toList = text at hvalue hdigits hne ⊢
  have hread : readConstant? text = some (.integer, n) := by
    unfold readConstant?
    unfold readNatural at hvalue
    split
    case h_1 digits =>
      have hx := hdigits 'x' (by simp)
      exact absurd hx (by decide)
    case h_2 hother =>
      have hdecimal : readDigits 10 text = n := by
        split at hvalue
        · exact absurd rfl (hother _)
        · exact hvalue
      rw [hdecimal, List.all_eq_true.mpr hdigits]
      simp [hne]
  rw [readTerm?, hread]

/-- A hexadecimal numeral is read as its number, in hexadecimal style. -/
theorem spells_hex (least n : Nat) : Spells (hex least n).toList (.constant .hex n) := by
  have hunsigned := unsigned_hex least n
  refine ⟨?_, hunsigned.plain⟩
  have htext : (hex least n).toList = '0' :: 'x' :: hexDigits least n := by simp [hex]
  have hvalue : readDigits 16 (hexDigits least n) = n := by
    have hvalue := hunsigned.value
    rw [htext] at hvalue
    exact hvalue
  have hdigits : ∀ c ∈ hexDigits least n, isHexDigit c = true := by
    intro c hc
    obtain ⟨digits, -, hlt, hdigits, -⟩ := exists_digits (show 1 < 16 by decide) n
    have hwrite : ∀ d < 16, isHexDigit (Nat.digitChar d).toUpper = true := by decide
    simp only [hexDigits, hdigits, List.leftpad, List.mem_append, List.mem_replicate,
      List.mem_map] at hc
    rcases hc with ⟨-, rfl⟩ | ⟨_, ⟨d, hd, rfl⟩, rfl⟩
    · decide
    · exact hwrite d (hlt d hd)
  have hne : hexDigits least n ≠ [] := by
    simp [hexDigits, List.leftpad, Nat.toDigits_ne_nil]
  have hread : readConstant? (hex least n).toList = some (.hex, n) := by
    rw [htext, readConstant?, hvalue, List.all_eq_true.mpr hdigits]
    simp [hne]
  rw [readTerm?, hread]

theorem spells_numeral (mode : ValueMode) (width : Width) (n : Nat) :
    Spells (match mode with
      | .integer => natural n
      | .hex => hex width.hexDigits n).toList (.constant mode n) := by
  cases mode with
  | integer => exact spells_natural n
  | hex => exact spells_hex _ n

/-- A word for a term has no blank in it. -/
theorem Spells.blank_not_mem {word : List Char} {t : Term} (h : Spells word t) : ' ' ∉ word :=
  fun hblank => absurd (h.plain _ hblank) (by decide)

-- ============================================================ pieces

/-- A term behind other terms, and how it is written. -/
structure Piece where
  sign : Sign
  term : Term
  word : List Char
  spells : Spells word term

namespace Piece

/-- A piece as it is written, set off by blanks. -/
def text (p : Piece) : List Char := ' ' :: p.sign.symbol :: ' ' :: p.word

/-- What a piece contributes to the sum. -/
def summand (p : Piece) : Sign × Term := (p.sign, p.term)

/-- A register that is added. -/
def ofRegister (r : Register) : Piece := ⟨.plus, .register r, r.name.toList, spells_register r⟩

end Piece

/-- Cutting at the blanks gives back the signs and the words. -/
theorem splitOn_pieces {word : List Char} (hword : ' ' ∉ word) (pieces : List Piece) :
    (word ++ pieces.flatMap Piece.text).splitOn ' '
      = word :: pieces.flatMap fun p => [[p.sign.symbol], p.word] := by
  induction pieces generalizing word with
  | nil =>
      rw [List.flatMap_nil, List.append_nil, List.splitOn_eq_singleton hword]
      rfl
  | cons p pieces ih =>
      have hsymbol : ' ' ∉ [p.sign.symbol] := by cases p.sign <;> decide
      have htail := ih p.spells.blank_not_mem
      rw [List.flatMap_cons, List.flatMap_cons, Piece.text, List.cons_append,
        List.splitOn_append_cons_self_of_not_mem hword]
      have hsign := List.splitOn_append_cons_self_of_not_mem hsymbol
        (p.word ++ pieces.flatMap Piece.text)
      rw [htail] at hsign
      exact congrArg (word :: ·) hsign

/-- Signs and words in turn are read as the summands. -/
theorem readFollowing?_pieces (pieces : List Piece) :
    readFollowing? (pieces.flatMap fun p => [[p.sign.symbol], p.word])
      = some (pieces.map Piece.summand) := by
  induction pieces with
  | nil => rfl
  | cons p pieces ih =>
      have hsign : readSign? [p.sign.symbol] = some p.sign := by cases p.sign <;> decide
      rw [List.flatMap_cons, List.cons_append, List.cons_append, List.nil_append, readFollowing?,
        hsign, p.spells.read, ih]
      rfl

/-- A sum is read term by term. -/
theorem readSum?_pieces {word : List Char} {t : Term} (h : Spells word t) (pieces : List Piece) :
    readSum? (word ++ pieces.flatMap Piece.text)
      = some ((.plus, t) :: pieces.map Piece.summand) := by
  rw [readSum?, splitOn_pieces h.blank_not_mem]
  simp only [h.read, readFollowing?_pieces]
  rfl

/-- Overrides are told apart, and hold no bracket. -/
theorem lookup_override (override : Option Segment) :
    lookup overrideText (none :: Segment.all.map some) (overrideText override).toList
        = some override
      ∧ ∀ c ∈ (overrideText override).toList, (c != '[') = true := by
  have hplain : (overrideText override).toList.all (· != '[') = true := by
    rcases override with _ | (_ | _ | _ | _) <;> decide +kernel
  refine ⟨?_, List.all_eq_true.mp hplain⟩
  rcases override with _ | (_ | _ | _ | _) <;> decide +kernel

/-- Behind an override, what stands between the brackets is a sum. -/
theorem read?_of_toList {text : String} {override : Option Segment} {sum : List Char}
    {summands : List (Sign × Term)}
    (htext : text.toList = (overrideText override).toList ++ '[' :: (sum ++ [']']))
    (hsum : readSum? sum = some summands) : read? text = some ⟨override, summands⟩ := by
  obtain ⟨hlookup, hplain⟩ := lookup_override override
  obtain ⟨htake, hdrop⟩ := takeWhile_dropWhile_append hplain
    (show ('[' :: (sum ++ [']'])).head?.all (!· != '[') = true by simp)
  rw [read?, htext, htake, hdrop, hlookup]
  simp [hsum]

end AddressText

end Assembly

open Assembly AddressText

-- ========================================================= rendering

/-- The displacement as a term behind the registers, unless it is zero. -/
def Displacement.pieces (mode : ValueMode) (d : Displacement) : List Piece :=
  if d.value.toInt = 0 then []
  else
    [{ sign := if d.value.toInt < 0 then .minus else .plus
       term := .constant mode d.value.toInt.natAbs
       word := _
       spells := spells_numeral mode d.width d.value.toInt.natAbs }]

/-- A displacement is written as a piece, or not at all. -/
theorem Displacement.toList_render (mode : ValueMode) (d : Displacement) :
    (d.render mode).toList = (d.pieces mode).flatMap Piece.text := by
  unfold render pieces
  by_cases hzero : d.value.toInt = 0
  · simp [hzero]
  · by_cases hneg : d.value.toInt < 0
    · cases mode <;> simp [hzero, hneg, Piece.text, Sign.symbol]
    · cases mode <;> simp [hzero, hneg, Piece.text, Sign.symbol]

/-- Unless the address is direct, its text starts with a register and adds
the others. -/
theorem AddressingMode.exists_registers {m : AddressingMode} (h : m ≠ .direct) :
    ∃ r rs, m.registers = r :: rs
      ∧ m.render.toList = r.name.toList ++ (rs.map Piece.ofRegister).flatMap Piece.text := by
  cases m with
  | direct => exact absurd rfl h
  | _ => exact ⟨_, _, rfl, by decide +kernel⟩

namespace MemoryReference

variable (mode : ValueMode) (m : MemoryReference)

/-- The terms of the address: its registers, then a constant. A direct
address is its constant alone; otherwise zero is left out. -/
def summands : List (Sign × Term) :=
  m.mode.registers.map (fun r => (.plus, .register r)) ++
    if m.mode = .direct then [(.plus, .constant mode m.displacement.toWord.toNat)]
    else (m.displacement.pieces mode).map Piece.summand

/-- The sum between the brackets is read back. -/
theorem readSum?_renderAddress :
    readSum? (m.renderAddress mode).toList = some (m.summands mode) := by
  unfold renderAddress summands
  by_cases hdirect : m.mode = .direct
  · have hread := readSum?_pieces
      (spells_numeral mode .word m.displacement.toWord.toNat) []
    rw [List.flatMap_nil, List.append_nil] at hread
    rw [if_pos hdirect, if_pos hdirect, hdirect]
    exact hread
  · obtain ⟨r, rs, hregisters, htext⟩ := AddressingMode.exists_registers hdirect
    have hread := readSum?_pieces (spells_register r)
      (rs.map Piece.ofRegister ++ m.displacement.pieces mode)
    rw [List.flatMap_append, ← List.append_assoc, ← htext, ← m.displacement.toList_render,
      ← String.toList_append] at hread
    rw [if_neg hdirect, if_neg hdirect, hread, hregisters]
    simp [Piece.ofRegister, Piece.summand, Function.comp_def]

/-- A memory operand as it is written is read back, with its override and
its summands. -/
theorem read?_render : read? (m.render mode) = some ⟨m.override, m.summands mode⟩ := by
  refine read?_of_toList ?_ (m.readSum?_renderAddress mode)
  unfold render overrideText
  cases m.override <;> simp

-- ========================================================= addresses

/-- Words are added as whole numbers are, modulo 2^16. -/
theorem toNat_foldl_add (regs : RegisterFile) (rs : List Register) (start : UInt16) :
    ((rs.foldl (fun sum r => sum + regs r) start).toNat : Int)
      = (start.toNat + (rs.map fun r => ((regs r).toNat : Int)).sum) % 0x10000 := by
  induction rs generalizing start with
  | nil =>
      have hlt := start.toNat_lt
      rw [List.foldl_nil, List.map_nil, List.sum_nil]
      omega
  | cons r rs ih =>
      have hadd : ((start + regs r).toNat : Int)
          = ((start.toNat : Int) + (regs r).toNat) % 0x10000 := by
        rw [UInt16.toNat_add]
        omega
      rw [List.foldl_cons, ih, List.map_cons, List.sum_cons, hadd, Int.emod_add_emod, Int.add_assoc]

/-- The number in the text and the word that the program adds differ by
whole turns. -/
theorem written_emod : m.written % 0x10000 = m.displacement.toWord.toNat := by
  have hlt := m.displacement.toWord.toNat_lt
  unfold written
  split
  · omega
  · have hsigned : m.displacement.value.toInt
        = Int.bmod m.displacement.toWord.toNat (2 ^ 16) := BitVec.toInt_eq_toNat_bmod _
    rw [hsigned]
    exact (Int.bmod_emod (m := 2 ^ 16)).trans (by omega)

/-- Behind the registers the constant is left out, if there are registers
and it is zero, or it is the number with its sign. -/
theorem summands_cases :
    (m.summands mode = m.mode.registers.map (fun r => (.plus, .register r))
        ∧ m.mode ≠ .direct ∧ m.displacement.value = 0 ∧ m.written = 0)
      ∨ ∃ (sign : Sign) (n : Nat), m.summands mode
            = m.mode.registers.map (fun r => (.plus, .register r)) ++ [(sign, .constant mode n)]
          ∧ sign.factor * n = m.written ∧ (m.mode = .direct ∨ m.displacement.value ≠ 0) := by
  unfold summands written Displacement.pieces
  by_cases hdirect : m.mode = .direct
  · right
    refine ⟨.plus, m.displacement.toWord.toNat, ?_, ?_, Or.inl hdirect⟩
    · rw [if_pos hdirect]
    · rw [if_pos hdirect, Sign.factor, Int.one_mul]
  · by_cases hzero : m.displacement.value.toInt = 0
    · -- behind registers a zero is not written, whatever it takes to encode it
      left
      refine ⟨?_, hdirect, Int16.toInt_inj.mp hzero, ?_⟩
      · rw [if_neg hdirect, if_pos hzero, List.map_nil, List.append_nil]
      · rw [if_neg hdirect, hzero]
    · right
      refine ⟨if m.displacement.value.toInt < 0 then .minus else .plus,
        m.displacement.value.toInt.natAbs, ?_, ?_, Or.inr fun hvalue => hzero (by rw [hvalue]; rfl)⟩
      · rw [if_neg hdirect, if_neg hzero]
        rfl
      · rw [if_neg hdirect]
        split
        · rw [Sign.factor]
          omega
        · rw [Sign.factor]
          omega

/-- The summands add up to the registers and the constant that is written. -/
theorem value_summands (regs : RegisterFile) :
    (AddressText.mk m.override (m.summands mode)).value regs
      = (m.mode.registers.map fun r => ((regs r).toNat : Int)).sum + m.written := by
  have hregisters : ((m.mode.registers.map fun r => (Sign.plus, Term.register r)).map
      fun s => s.1.factor * s.2.value regs)
        = m.mode.registers.map fun r => ((regs r).toNat : Int) := by
    rw [List.map_map]
    refine List.map_congr_left fun r _ => ?_
    exact Int.one_mul _
  unfold AddressText.value
  rcases m.summands_cases mode with ⟨hsummands, -, -, hwritten⟩ | ⟨sign, n, hsummands, hwritten, -⟩
  · rw [hsummands, hregisters, hwritten, Int.add_zero]
  · rw [hsummands, List.map_append, hregisters, List.sum_append, List.map_singleton,
      List.sum_singleton, ← hwritten]
    rfl

/-- There is one constant, in the style asked for, unless it is zero and
can be left out. -/
theorem constants_summands :
    (AddressText.mk m.override (m.summands mode)).constants
      = if m.mode ≠ .direct ∧ m.displacement.value = 0 then [] else [(mode, m.written)] := by
  unfold AddressText.constants
  rcases m.summands_cases mode with
    ⟨hsummands, hmode, hvalue, -⟩ | ⟨sign, n, hsummands, hwritten, hshown⟩
  · rw [hsummands, if_pos ⟨hmode, hvalue⟩, List.filterMap_map]
    exact List.filterMap_eq_nil_iff.mpr fun r _ => rfl
  · have hshown' : ¬ (m.mode ≠ .direct ∧ m.displacement.value = 0) := by
      rintro ⟨hmode, hvalue⟩
      exact hshown.elim hmode (fun h => h hvalue)
    rw [hsummands, if_neg hshown', List.filterMap_append, List.filterMap_map, ← hwritten]
    simp

/-- The segment that the text denotes: an override, or the stack segment if
`BP` is named. -/
theorem segment_summands :
    (AddressText.mk m.override (m.summands mode)).segment
      = m.override.getD (if m.mode.base? = some .BP then .SS else .DS) := by
  have hregisters : (m.mode.registers.map fun r => (Sign.plus, Term.register r)).any
      (·.2 == .register .BP) = decide (m.mode.base? = some .BP) := by
    cases m.mode <;> decide
  have hany : (m.summands mode).any (·.2 == .register .BP)
      = decide (m.mode.base? = some .BP) := by
    rcases m.summands_cases mode with ⟨hsummands, -⟩ | ⟨sign, n, hsummands, -⟩
    · rw [hsummands, hregisters]
    · rw [hsummands, List.any_append, hregisters]
      simp
  simp only [AddressText.segment, hany, decide_eq_true_iff]

/-- The segment that is addressed is chosen by the same rule. -/
theorem segment_eq :
    m.segment = m.override.getD (if m.mode.base? = some .BP then .SS else .DS) := by
  unfold segment
  cases m.mode <;> rfl

/-- The linear address, as a number. -/
theorem toNat_linear (regs : RegisterFile) :
    (m.linear regs).toNat
      = (16 * (regs m.segment.register).toNat + (m.offset regs).toNat) % 0x100000 := by
  have hsegment := (regs m.segment.register).toNat_lt
  have hoffset := (m.offset regs).toNat_lt
  rw [linear, linearAddress, BitVec.toNat_add, BitVec.toNat_shiftLeft, BitVec.toNat_setWidth,
    BitVec.toNat_setWidth, UInt16.toNat_toBitVec, UInt16.toNat_toBitVec, Nat.shiftLeft_eq]
  omega

-- ========================================================= statement

/-- The text of a memory operand names the segment and spells out the sum
that make up its address. Its override is the one that is set; the value
of the sum, modulo 2^16, is the offset, and with sixteen times the segment,
modulo 2^20, the linear address. The constant is the displacement with
its sign, in the style that is asked for, and is left out exactly if it is
zero and there are registers. -/
theorem render_denotes_address (regs : RegisterFile) :
    ∃ a : AddressText, AddressText.read? (m.render mode) = some a
      ∧ a.override = m.override
      ∧ a.value regs % 0x10000 = (m.offset regs).toNat
      ∧ a.segment = m.override.getD (if m.mode.base? = some .BP then .SS else .DS)
      ∧ (16 * (regs a.segment.register).toNat + a.value regs % 0x10000) % 0x100000
          = (m.linear regs).toNat
      ∧ a.constants =
          if m.mode = .direct then [(mode, (m.displacement.toWord.toNat : Int))]
          else if m.displacement.value = 0 then []
          else [(mode, m.displacement.value.toInt)] := by
  have hoffset : (AddressText.mk m.override (m.summands mode)).value regs % 0x10000
      = (m.offset regs).toNat := by
    rw [m.value_summands mode regs, offset, toNat_foldl_add, ← m.written_emod, Int.emod_add_emod,
      Int.add_comm]
  refine ⟨_, m.read?_render mode, rfl, hoffset, m.segment_summands mode, ?_, ?_⟩
  · rw [hoffset, m.toNat_linear regs, m.segment_summands mode, ← m.segment_eq]
    omega
  · rw [m.constants_summands mode, written]
    by_cases hdirect : m.mode = .direct
    · simp [hdirect]
    · simp [hdirect]

end MemoryReference

end Disasm8086
