/-
Reading a line of assembly text back. A line is prefix words, a mnemonic
and operands between commas; an operand is a register, a number, two
numbers with a colon between them, or an address in brackets with a size
and a segment in front. The reader knows these words and shapes and
nothing else: what an operation does with its operands is not its
concern.

Reading a rendered instruction gives its line: the words and numbers
that were written, as data. Rendering has many branches (sizes that are
left out, overrides that move, zero displacements that vanish), and they
all end here; instructions with one text have one line.

# What is proved here

- `Token.read_register`, `Token.read_number`, `Token.read_farPointer`,
  `Token.read_memory`: every written operand is read back.
- `Line.read_render`: so is every line.
-/
import Disasm8086.Proofs.Numeral
import Disasm8086.Render

namespace Disasm8086

open Text

-- ========================================================= vocabulary

/-- The prefixes by the words that a line spells them with. -/
def Prefix.word : Prefix → String
  | .override s => s.name
  | .lock => "LOCK"
  | .repne => "REPNE"
  | .rep => "REP"

/-- All prefixes. -/
def Prefix.all : List Prefix := Segment.all.map .override ++ [.lock, .repne, .rep]

theorem Prefix.mem_all (p : Prefix) : p ∈ all := by
  rcases p with (_ | _ | _ | _) | _ | _ | _ <;> decide

/-- All addressing modes. -/
def AddressingMode.all : List AddressingMode :=
  [.bxSi, .bxDi, .bpSi, .bpDi, .si, .di, .bp, .bx, .direct]

theorem Mnemonic.mem_all (m : Mnemonic) : m ∈ all := by
  have hplace : all[m.position]? = some m := by cases m <;> rfl
  exact List.mem_of_getElem? hplace

namespace Assembly

/-- The size in front of a memory operand. -/
inductive SizeMark where
  | silent
  | byte
  | word
  | far
  deriving DecidableEq, Repr

namespace SizeMark

/-- All marks. -/
def all : List SizeMark := [.silent, .byte, .word, .far]

/-- A mark as it is written, with the blank behind it. -/
def text : SizeMark → String
  | .silent => ""
  | .byte => "BYTE "
  | .word => "WORD "
  | .far => "FAR "

/-- The mark of a memory operand that stands beside a register or not. -/
def of (m : Mnemonic) (besideRegister : Bool) (size : Width) : SizeMark :=
  if m.isFarBranch then .far
  else if m = .ESC then .silent
  else if besideRegister && !m.isShiftRotate then .silent
  else
    match size with
    | .byte => .byte
    | .word => .word
    | .none => .silent

end SizeMark

/-- What stands in front of the bracket: a size and an override. -/
def headerText (header : SizeMark × Option Segment) : String :=
  header.1.text ++ match header.2 with
    | some segment => segment.name ++ ":"
    | none => ""

/-- All that can stand in front of the bracket. -/
def headers : List (SizeMark × Option Segment) :=
  SizeMark.all.flatMap fun mark => (none :: Segment.all.map some).map fun override =>
    (mark, override)

/-- What stands in front of the number in an address: the registers, and
the sign that ties the number to them. -/
def stemText (stem : AddressingMode × Int) : String :=
  stem.1.render ++ if stem.2 = 0 then "" else if stem.2 < 0 then " - " else " + "

/-- All that can stand in front of the number. -/
def stems : List (AddressingMode × Int) :=
  AddressingMode.all.flatMap fun mode => [0, 1, -1].map fun sign => (mode, sign)

/-- The entry of a vocabulary that is spelled like this. -/
def lookup {α : Type} (spell : α → String) (vocabulary : List α) (text : List Char) : Option α :=
  vocabulary.find? fun a => (spell a).toList == text

/-- Headers are told apart, and hold no bracket and no comma. -/
theorem lookup_header (header : SizeMark × Option Segment) :
    lookup headerText headers (headerText header).toList = some header
      ∧ ∀ c ∈ (headerText header).toList, c ≠ '[' ∧ c ≠ ',' := by
  have hall : ∀ h ∈ headers, lookup headerText headers (headerText h).toList = some h
      ∧ (headerText h).toList.all (fun c => c != '[' && c != ',') = true := by decide +kernel
  have hmem : header ∈ headers := by
    rcases header with ⟨_ | _ | _ | _, _ | _ | _ | _ | _⟩ <;> decide
  simpa using hall header hmem

/-- Stems are told apart, and hold no digit, no bracket and no comma. -/
theorem lookup_stem (mode : AddressingMode) {sign : Int} (h : sign ∈ [0, 1, -1]) :
    lookup stemText stems (stemText (mode, sign)).toList = some (mode, sign)
      ∧ ∀ c ∈ (stemText (mode, sign)).toList, c.isDigit = false ∧ c ≠ ']' ∧ c ≠ ',' := by
  have hall : ∀ s ∈ stems, lookup stemText stems (stemText s).toList = some s
      ∧ (stemText s).toList.all (fun c => !c.isDigit && (c != ']' && c != ',')) = true := by
    decide +kernel
  have hmode : mode ∈ AddressingMode.all := by cases mode <;> decide
  simpa using hall (mode, sign) (List.mem_flatMap.mpr ⟨mode, hmode, List.mem_map_of_mem h⟩)

/-- The words of prefixes are told apart, and hold no blank. -/
theorem lookup_prefixWord (p : Prefix) :
    lookup Prefix.word Prefix.all p.word.toList = some p ∧ ' ' ∉ p.word.toList := by
  have hall : ∀ p ∈ Prefix.all, lookup Prefix.word Prefix.all p.word.toList = some p
      ∧ ' ' ∉ p.word.toList := by decide +kernel
  exact hall p p.mem_all

/-- No mnemonic is spelled like a prefix. -/
theorem lookup_mnemonic (m : Mnemonic) :
    lookup Prefix.word Prefix.all m.text.toList = none ∧ ' ' ∉ m.text.toList := by
  have hall : ∀ m ∈ Mnemonic.all, lookup Prefix.word Prefix.all m.text.toList = none
      ∧ ' ' ∉ m.text.toList := by decide +kernel
  exact hall m m.mem_all

/-- A list is divided where a property first fails. -/
theorem takeWhile_dropWhile_append {α : Type} {p : α → Bool} {a b : List α}
    (ha : ∀ x ∈ a, p x = true) (hb : b.head?.all (!p ·) = true) :
    (a ++ b).takeWhile p = a ∧ (a ++ b).dropWhile p = b := by
  rw [List.takeWhile_append_of_pos ha, List.dropWhile_append_of_pos ha]
  cases b with
  | nil => simp
  | cons x b =>
      have hx : p x = false := by simpa using hb
      simp [hx]

-- ============================================================= tokens

/-- An operand as a line shows it. -/
inductive Token where
  | register (r : Register)
  | number (n : Int)
  | farPointer (segment offset : Int)
  | memory (mark : SizeMark) (override : Option Segment) (mode : AddressingMode)
      (displacement : Int)
  deriving DecidableEq, Repr

namespace Token

/-- The number in an address has a sign, unless it stands alone. -/
def signed (stem : AddressingMode × Int) (magnitude : Nat) : Int :=
  if stem.1 = .direct then magnitude else stem.2 * magnitude

/-- Reads what stands between the brackets: a stem up to the first digit,
and a number. -/
def readAddress (text : List Char) : Option (AddressingMode × Int) :=
  (lookup stemText stems (text.takeWhile (!·.isDigit))).map fun stem =>
    (stem.1, signed stem (readNatural (text.dropWhile (!·.isDigit))))

/-- Reads what stands between two commas. -/
def read (text : List Char) : Option Token :=
  if '[' ∈ text then do
    let (mark, override) ← lookup headerText headers (text.takeWhile (· != '['))
    let (mode, displacement) ←
      readAddress (((text.dropWhile (· != '[')).drop 1).takeWhile (· != ']'))
    return .memory mark override mode displacement
  else if ':' ∈ text then
    some (.farPointer (readNumber (text.takeWhile (· != ':')))
      (readNumber ((text.dropWhile (· != ':')).drop 1)))
  else
    match lookup Register.name Register.all text with
    | some r => some (.register r)
    | none => some (.number (readNumber text))

theorem read_register (r : Register) :
    read r.name.toList = some (.register r) ∧ ',' ∉ r.name.toList := by
  cases r <;> decide +kernel

/-- A numeral is read as a number, since it is no register and has no
bracket or colon. -/
theorem read_number {text : List Char} {n : Int} (h : Signed text n) :
    read text = some (.number n) := by
  have hmarks : '[' ∉ text ∧ ':' ∉ text := by
    constructor <;> intro hc <;> exact absurd (h.plain _ hc) (by decide)
  -- a register starts with a letter
  have hname : lookup Register.name Register.all text = none := by
    refine List.find?_eq_none.mpr fun r _ => ?_
    rw [beq_iff_eq]
    rintro rfl
    have hleads := h.leads
    cases r <;> revert hleads <;> decide
  rw [read, if_neg hmarks.1, if_neg hmarks.2, hname, h.value]

/-- Two numerals around a colon are read as a far pointer. -/
theorem read_farPointer {text text' : List Char} {n n' : Int} (h : Signed text n)
    (h' : Signed text' n') : read (text ++ ':' :: text') = some (.farPointer n n') := by
  have hplain : ∀ c ∈ text ++ ':' :: text', c.isAlphanum = true ∨ c = '-' ∨ c = ':' := by
    intro c hc
    rcases List.mem_append.mp hc with hc | hc
    · exact (h.plain c hc).imp_right Or.inl
    · rcases List.mem_cons.mp hc with rfl | hc
      · exact Or.inr (Or.inr rfl)
      · exact (h'.plain c hc).imp_right Or.inl
  have hbracket : '[' ∉ text ++ ':' :: text' := fun hc => absurd (hplain _ hc) (by decide)
  have hbefore : ∀ c ∈ text, (c != ':') = true := by
    intro c hc
    rw [bne_iff_ne]
    rintro rfl
    exact absurd (h.plain _ hc) (by decide)
  obtain ⟨htake, hdrop⟩ := takeWhile_dropWhile_append hbefore
    (show (':' :: text').head?.all (!· != ':') = true by simp)
  rw [read, if_neg hbracket, if_pos (by simp), htake, hdrop, h.value, List.drop_one,
    List.tail_cons, h'.value]

/-- A numeral in an address: what is left out has magnitude zero. -/
structure Magnitude (text : List Char) (n : Nat) : Prop where
  value : readNatural text = n
  plain : ∀ c ∈ text, c.isAlphanum = true
  leads : text.head?.all Char.isDigit = true

theorem magnitude_nil : Magnitude [] 0 := ⟨rfl, by simp, rfl⟩

/-- A stem with a numeral behind it is read as an address. -/
theorem readAddress_append (mode : AddressingMode) {sign : Int} (hsign : sign ∈ [0, 1, -1])
    {numeral : List Char} {magnitude : Nat} (h : Magnitude numeral magnitude) :
    readAddress ((stemText (mode, sign)).toList ++ numeral)
      = some (mode, signed (mode, sign) magnitude) := by
  obtain ⟨hstem, hstemText⟩ := lookup_stem mode hsign
  obtain ⟨htake, hdrop⟩ := takeWhile_dropWhile_append (p := (!·.isDigit)) (b := numeral)
    (fun c hc => by rw [(hstemText c hc).1]; rfl) (by simpa using h.leads)
  rw [readAddress, htake, hstem, hdrop, h.value]
  rfl

/-- A memory operand is read back, part by part. -/
theorem read_memory (mark : SizeMark) (override : Option Segment) (mode : AddressingMode)
    {sign : Int} (hsign : sign ∈ [0, 1, -1]) {numeral : List Char} {magnitude : Nat}
    (h : Magnitude numeral magnitude) :
    read ((headerText (mark, override)).toList
        ++ '[' :: ((stemText (mode, sign)).toList ++ numeral ++ [']']))
      = some (.memory mark override mode (signed (mode, sign) magnitude)) := by
  obtain ⟨hheader, hheaderText⟩ := lookup_header (mark, override)
  obtain ⟨htake, hdrop⟩ := takeWhile_dropWhile_append (p := (· != '['))
    (b := '[' :: ((stemText (mode, sign)).toList ++ numeral ++ [']']))
    (fun c hc => bne_iff_ne.mpr (hheaderText c hc).1) (by simp)
  have hinside : ∀ c ∈ (stemText (mode, sign)).toList ++ numeral, (c != ']') = true := by
    intro c hc
    rw [bne_iff_ne]
    rcases List.mem_append.mp hc with hc | hc
    · exact ((lookup_stem mode hsign).2 c hc).2.1
    · rintro rfl
      exact absurd (h.plain _ hc) (by decide)
  have haddress := (takeWhile_dropWhile_append (b := [']']) hinside (by simp)).1
  rw [read, if_pos (by simp), htake, hdrop, List.drop_one, List.tail_cons, haddress,
    readAddress_append mode hsign h, hheader]
  rfl

end Token

end Assembly

/-- A numeral without a sign is one that an address can have. -/
theorem Text.Unsigned.magnitude {text : List Char} {n : Nat} (h : Unsigned text n) :
    Assembly.Token.Magnitude text n := by
  obtain ⟨hvalue, hplain, hleads⟩ := h
  refine ⟨hvalue, hplain, ?_⟩
  cases text with
  | nil => rfl
  | cons c text => exact hleads

open Assembly

-- ================================================= what operands show

/-- The number that stands for an immediate. -/
def Immediate.written (mode : ValueMode) (c : Immediate) : Int :=
  match c.role, mode with
  | .relative, _ => c.value.toInt
  | .plain, .integer => c.value.toInt
  | _, _ => c.toWord.toNat

/-- An immediate is written as a numeral of its value. -/
theorem Immediate.signed_render (mode : ValueMode) (c : Immediate) :
    Signed (c.render mode).toList (c.written mode) := by
  obtain ⟨value, width, role⟩ := c
  cases role with
  | relative => exact signed_signed _
  | plain =>
      cases mode with
      | integer => exact signed_signed _
      | hex => exact (unsigned_hex _ _).signed
  | unsigned | farSegment | farOffset =>
      cases mode with
      | integer => exact (unsigned_natural _).signed
      | hex => exact (unsigned_hex _ _).signed

namespace MemoryReference

/-- The number in the brackets, with its sign. -/
def written (m : MemoryReference) : Int :=
  if m.mode = .direct then m.displacement.toWord.toNat else m.displacement.value.toInt

/-- The sign that ties the number to the registers, if both are there. -/
def sign (m : MemoryReference) : Int :=
  if m.mode = .direct then 0 else m.displacement.value.toInt.sign

/-- The sign in an address is plus, minus or none. -/
theorem sign_mem (m : MemoryReference) : m.sign ∈ [0, 1, -1] := by
  unfold sign
  split
  · decide
  · rcases Int.sign_trichotomy m.displacement.value.toInt with h | h | h <;> rw [h] <;> decide

/-- Sign and magnitude make up the number that is written. -/
theorem signed_written (m : MemoryReference) :
    Token.signed (m.mode, m.sign) m.written.natAbs = m.written := by
  unfold Token.signed sign written
  split
  · rfl
  · exact Int.sign_mul_natAbs _

/-- The text of an address is its stem and a numeral. -/
theorem exists_numeral (mode : ValueMode) (m : MemoryReference) :
    ∃ numeral, (m.renderAddress mode).toList = (stemText (m.mode, m.sign)).toList ++ numeral
      ∧ Token.Magnitude numeral m.written.natAbs := by
  unfold renderAddress sign written stemText
  by_cases hdirect : m.mode = .direct
  · -- the word alone, behind no registers
    simp only [hdirect, if_true]
    refine ⟨_, (List.nil_append _).symm, ?_⟩
    cases mode with
    | integer => exact (unsigned_natural _).magnitude
    | hex => exact (unsigned_hex _ _).magnitude
  · simp only [hdirect, if_false, Displacement.render]
    generalize m.displacement.value.toInt = value
    by_cases hzero : value = 0
    · subst hzero
      exact ⟨[], by simp, Token.magnitude_nil⟩
    · have hsign : value.sign ≠ 0 := by simpa using hzero
      have hneg : value.sign < 0 ↔ value < 0 := Int.sign_neg_iff
      simp only [hzero, hsign, hneg, if_false]
      cases mode with
      | integer =>
          refine ⟨(natural value.natAbs).toList, ?_, (unsigned_natural _).magnitude⟩
          simp only [String.toList_append, List.append_assoc]
      | hex =>
          refine ⟨(hex m.displacement.width.hexDigits value.natAbs).toList, ?_,
            (unsigned_hex _ _).magnitude⟩
          simp only [String.toList_append, List.append_assoc]

end MemoryReference

namespace Instruction

variable (i : Instruction) (mode : ValueMode)

/-- The size that is written in front of a memory operand. -/
def sizeMark (m : MemoryReference) : SizeMark :=
  .of i.mnemonic (i.operands.any Operand.isRegister) m.size

/-- The mark is spelled as the renderer spells the size. -/
theorem text_sizeMark (m : MemoryReference) : (i.sizeMark m).text = i.sizeText m := by
  unfold sizeMark SizeMark.of sizeText
  split
  · rfl
  split
  · rfl
  split
  · rfl
  cases m.size <;> rfl

/-- What a line shows of an operand. -/
def token : Operand → Token
  | .register r => .register r
  | .immediate c => .number (c.written mode)
  | .memory m => .memory (i.sizeMark m) m.override m.mode m.written

/-- An operand is read back from its text, which has no comma. -/
theorem read_renderOperand (operand : Operand) :
    Token.read (i.renderOperand mode operand).toList = some (i.token mode operand)
      ∧ ',' ∉ (i.renderOperand mode operand).toList := by
  cases operand with
  | register r => exact Token.read_register r
  | immediate c =>
      have hsigned := c.signed_render mode
      exact ⟨Token.read_number hsigned, fun hc => absurd (hsigned.plain _ hc) (by decide)⟩
  | memory m =>
      obtain ⟨numeral, haddress, hnumeral⟩ := m.exists_numeral mode
      have htext : (i.renderOperand mode (.memory m)).toList
          = (headerText (i.sizeMark m, m.override)).toList
            ++ '[' :: ((stemText (m.mode, m.sign)).toList ++ numeral ++ [']']) := by
        rw [← haddress]
        simp only [renderOperand, MemoryReference.render, headerText, i.text_sizeMark,
          String.toList_append, List.append_assoc]
        rfl
      rw [htext]
      constructor
      · rw [Token.read_memory _ _ _ m.sign_mem hnumeral, m.signed_written]
        rfl
      · intro hc
        simp only [List.mem_append, List.mem_cons, List.not_mem_nil, or_false] at hc
        rcases hc with hc | hc | (hc | hc) | hc
        · exact ((lookup_header _).2 _ hc).2 rfl
        · exact absurd hc (by decide)
        · exact ((lookup_stem _ m.sign_mem).2 _ hc).2.2 rfl
        · exact absurd (hnumeral.plain _ hc) (by decide)
        · exact absurd hc (by decide)

/-- Far segments occur in far pointers only. -/
inductive Paired : Prop where
  | plain (h : ∀ operand ∈ i.operands, operand.isFarSegment = false)
  | far {segment offset : Immediate} (hrole : segment.role = .farSegment)
      (h : i.operands = [.immediate segment, .immediate offset])

/-- What a line shows of the operands: a far pointer is one token. -/
def tokens : List Token :=
  match i.operands with
  | [.immediate segment, .immediate offset] =>
    if segment.role = .farSegment then
      [.farPointer (segment.written mode) (offset.written mode)]
    else [.number (segment.written mode), .number (offset.written mode)]
  | operands => operands.map (i.token mode)

/-- Without a far pointer, every operand has a token of its own. -/
theorem tokens_of_plain (h : ∀ operand ∈ i.operands, operand.isFarSegment = false) :
    i.tokens mode = i.operands.map (i.token mode) := by
  unfold tokens
  split
  case h_1 segment offset heq =>
    have hrole : ¬ segment.role = .farSegment := by
      have hfirst := h (.immediate segment) (by rw [heq]; exact List.mem_cons_self)
      simpa [Operand.isFarSegment] using hfirst
    rw [if_neg hrole, heq]
    rfl
  case h_2 => rfl

/-- The two halves of a far pointer have one token together. -/
theorem tokens_of_far {segment offset : Immediate} (hrole : segment.role = .farSegment)
    (h : i.operands = [.immediate segment, .immediate offset]) :
    i.tokens mode = [.farPointer (segment.written mode) (offset.written mode)] := by
  unfold tokens
  rw [h]
  exact if_pos hrole

/-- Plain operands stand between commas, a blank in front of each. -/
theorem renderFollowing_of_plain (rest : List Operand) (before : Operand)
    (h : ∀ operand ∈ before :: rest, operand.isFarSegment = false) :
    ' ' :: (i.renderOperand mode before).toList ++ (i.renderFollowing mode before rest).toList
      = [','].intercalate ((before :: rest).map fun operand =>
          ' ' :: (i.renderOperand mode operand).toList) := by
  induction rest generalizing before with
  | nil => simp [renderFollowing]
  | cons operand rest ih =>
      have hbefore : before.isFarSegment = false := h before List.mem_cons_self
      have hrest := ih operand fun o ho => h o (List.mem_cons_of_mem before ho)
      rw [List.map_cons] at hrest
      rw [List.map_cons, List.map_cons, List.intercalate_cons_cons, ← hrest]
      simp [renderFollowing, hbefore]

/-- The operands of a line are tokens between commas. -/
theorem exists_chunks (h : i.Paired) (hne : i.operands ≠ []) :
    ∃ chunks : List (List Char), chunks ≠ [] ∧ (∀ chunk ∈ chunks, ',' ∉ chunk)
      ∧ chunks.map Token.read = (i.tokens mode).map some
      ∧ (i.renderOperands mode i.operands).toList = [','].intercalate (chunks.map (' ' :: ·)) := by
  cases h with
  | plain hplain =>
      refine ⟨i.operands.map fun operand => (i.renderOperand mode operand).toList, ?_, ?_, ?_, ?_⟩
      · simpa using hne
      · intro chunk hchunk
        obtain ⟨operand, -, rfl⟩ := List.mem_map.mp hchunk
        exact (i.read_renderOperand mode operand).2
      · rw [i.tokens_of_plain mode hplain, List.map_map, List.map_map]
        exact List.map_congr_left fun operand _ => (i.read_renderOperand mode operand).1
      · obtain ⟨operand, rest, hoperands⟩ := List.exists_cons_of_ne_nil hne
        rw [hoperands] at hplain ⊢
        rw [List.map_map]
        refine Eq.trans ?_ (i.renderFollowing_of_plain mode rest operand hplain)
        simp [renderOperands]
  | @far segment offset hrole hoperands =>
      -- two operands, but a single chunk with a colon in it
      have hsegment := segment.signed_render mode
      have hoffset := offset.signed_render mode
      refine ⟨[(segment.render mode).toList ++ ':' :: (offset.render mode).toList], by simp, ?_, ?_,
        ?_⟩
      · intro chunk hchunk hc
        rw [List.mem_singleton.mp hchunk] at hc
        simp only [List.mem_append, List.mem_cons] at hc
        rcases hc with hc | hc | hc
        · exact absurd (hsegment.plain _ hc) (by decide)
        · exact absurd hc (by decide)
        · exact absurd (hoffset.plain _ hc) (by decide)
      · rw [i.tokens_of_far mode hrole hoperands]
        exact congrArg ([·]) (Token.read_farPointer hsegment hoffset)
      · rw [hoperands]
        simp [renderOperands, renderFollowing, renderOperand, Operand.isFarSegment, hrole]

-- ============================================================ prefixes

end Instruction

/-- The prefixes other than the override, in the order in which a line
shows them. -/
def Prefixes.modifiers (ps : Prefixes) : List Prefix :=
  (if ps.has .lock then [.lock] else []) ++
    if ps.has .repne then [.repne] else if ps.has .rep then [.rep] else []

namespace Instruction

variable (i : Instruction) (mode : ValueMode)

/-- The prefixes in front of the mnemonic. The override is among them if
no operand shows it. -/
def shownPrefixes : List Prefix :=
  (if i.hasMemoryOperand then [] else (i.segment?.map .override).toList) ++ i.prefixes.modifiers

/-- Each prefix that is shown is a word with a blank behind it. -/
theorem prefixText_toList : i.prefixText.toList
    = i.shownPrefixes.flatMap fun p => p.word.toList ++ [' '] := by
  unfold prefixText shownPrefixes Prefixes.modifiers isLocked isRepne isRep
  cases i.segment? <;> cases i.hasMemoryOperand <;> cases i.prefixes.has .lock <;>
    cases i.prefixes.has .repne <;> cases i.prefixes.has .rep <;> simp [Prefix.word]

end Instruction

-- ============================================================== lines

namespace Assembly

/-- A line of assembly text. -/
structure Line where
  prefixes : List Prefix
  word : List Char
  tokens : List Token
  deriving DecidableEq, Repr

namespace Line

/-- The prefix that a word spells, if it spells one. -/
def readPrefix (word : List Char) : Option Prefix := lookup Prefix.word Prefix.all word

/-- Reads operands with a blank in front of each. -/
def readOperands (text : List Char) : Option (List Token) :=
  (text.splitOn ',').mapM fun chunk => Token.read (chunk.drop 1)

/-- Reads a line: words for prefixes as long as there are any, then the
mnemonic, then operands. -/
def read (text : String) : Option Line :=
  let words := text.toList.splitOn ' '
  let prefixes := (words.takeWhile fun word => (readPrefix word).isSome).filterMap readPrefix
  match words.dropWhile fun word => (readPrefix word).isSome with
  | [] => none
  | [word] => some ⟨prefixes, word, []⟩
  | word :: rest => do
    let tokens ← readOperands (' ' :: [' '].intercalate rest)
    return ⟨prefixes, word, tokens⟩

/-- Texts that are read one by one are read behind their blanks. -/
theorem mapM_of_map_eq {texts : List (List Char)} {tokens : List Token}
    (h : texts.map Token.read = tokens.map some) :
    (texts.map (' ' :: ·)).mapM (fun chunk => Token.read (chunk.drop 1)) = some tokens := by
  induction texts generalizing tokens with
  | nil =>
      rw [List.map_nil, eq_comm, List.map_eq_nil_iff] at h
      rw [h]
      rfl
  | cons text texts ih =>
      match tokens, h with
      | token :: tokens, h =>
          simp only [List.map_cons, List.cons.injEq] at h
          rw [List.map_cons, List.mapM_cons, ih h.2, List.drop_one, List.tail_cons, h.1]
          rfl

/-- Operands without commas, joined by commas, are read back. -/
theorem readOperands_intercalate {texts : List (List Char)} {tokens : List Token}
    (hne : texts ≠ []) (hcomma : ∀ text ∈ texts, ',' ∉ text)
    (h : texts.map Token.read = tokens.map some) :
    readOperands ([','].intercalate (texts.map (' ' :: ·))) = some tokens := by
  have hchunk : ∀ chunk ∈ texts.map (' ' :: ·), ',' ∉ chunk := by
    intro chunk hc
    obtain ⟨text, htext, rfl⟩ := List.mem_map.mp hc
    simpa using hcomma text htext
  rw [readOperands, List.splitOn_intercalate ',' hchunk (by simpa using hne)]
  exact mapM_of_map_eq h

/-- Words in front of a text are split off one by one. -/
theorem splitOn_prefixes (ps : List Prefix) (text : List Char) :
    (ps.flatMap (fun p => p.word.toList ++ [' ']) ++ text).splitOn ' '
      = ps.map (·.word.toList) ++ text.splitOn ' ' := by
  induction ps with
  | nil => rfl
  | cons p ps ih =>
      rw [List.flatMap_cons, List.append_assoc, List.append_assoc, List.singleton_append,
        List.splitOn_append_cons_self_of_not_mem (lookup_prefixWord p).2, ih]
      rfl

/-- The prefixes of a line end with its mnemonic. -/
theorem takeWhile_dropWhile_words (ps : List Prefix) (m : Mnemonic) (rest : List (List Char)) :
    (ps.map (·.word.toList) ++ m.text.toList :: rest).takeWhile (fun w => (readPrefix w).isSome)
        = ps.map (·.word.toList)
      ∧ (ps.map (·.word.toList) ++ m.text.toList :: rest).dropWhile
          (fun w => (readPrefix w).isSome) = m.text.toList :: rest := by
  have hprefix : ∀ w ∈ ps.map (·.word.toList), (readPrefix w).isSome = true := by
    intro w hw
    obtain ⟨p, -, rfl⟩ := List.mem_map.mp hw
    rw [readPrefix, (lookup_prefixWord p).1]
    rfl
  have hword : readPrefix m.text.toList = none := (lookup_mnemonic m).1
  exact takeWhile_dropWhile_append hprefix (by simp [hword])

/-- The words of prefixes are read back as these prefixes. -/
theorem filterMap_words (ps : List Prefix) :
    (ps.map (·.word.toList)).filterMap readPrefix = ps := by
  have hread : readPrefix ∘ (fun p : Prefix => p.word.toList) = some := by
    funext p
    exact (lookup_prefixWord p).1
  rw [List.filterMap_map, hread, List.filterMap_some]

end Line

end Assembly

namespace Instruction

/-- The words and numbers that an instruction is written with. -/
def line (i : Instruction) (mode : ValueMode) : Line :=
  ⟨i.shownPrefixes, i.mnemonic.text.toList, i.tokens mode⟩

/-- The text of an instruction is read back to its line. -/
theorem read_render {i : Instruction} (h : i.Paired) (mode : ValueMode) :
    Line.read (i.render mode) = some (i.line mode) := by
  have hblank := (lookup_mnemonic i.mnemonic).2
  have htext : (i.render mode).toList
      = i.shownPrefixes.flatMap (fun p => p.word.toList ++ [' '])
        ++ (i.mnemonic.text.toList ++ (i.renderOperands mode i.operands).toList) := by
    rw [render, String.toList_append, String.toList_append, i.prefixText_toList,
      List.append_assoc]
  unfold Line.read
  rw [htext, Line.splitOn_prefixes]
  by_cases hne : i.operands = []
  · -- the mnemonic is the last word
    have hrest : (i.renderOperands mode i.operands).toList = [] := by
      rw [hne]
      rfl
    have htokens : i.tokens mode = [] := by
      unfold tokens
      rw [hne]
      rfl
    rw [hrest, List.append_nil, List.splitOn_eq_singleton hblank]
    obtain ⟨htake, hdrop⟩ :=
      Line.takeWhile_dropWhile_words i.shownPrefixes i.mnemonic []
    simp only [htake, hdrop, Line.filterMap_words, line, htokens]
  · -- the mnemonic ends at a blank; the operands are split there too, and joined again
    obtain ⟨chunks, hchunks, hcomma, hread, hrest⟩ := i.exists_chunks mode h hne
    obtain ⟨operand, rest, hoperands⟩ := List.exists_cons_of_ne_nil hne
    obtain ⟨text, hcons⟩ : ∃ text, (i.renderOperands mode i.operands).toList = ' ' :: text := by
      rw [hoperands, renderOperands, String.toList_append, String.toList_append]
      exact ⟨_, rfl⟩
    obtain ⟨word, words, hwords⟩ :=
      List.exists_cons_of_ne_nil (List.splitOn_ne_nil ' ' text)
    have hjoin : [' '].intercalate (word :: words) = text := by
      rw [← hwords, List.intercalate_splitOn]
    rw [hcons, List.splitOn_append_cons_self_of_not_mem hblank, hwords]
    obtain ⟨htake, hdrop⟩ :=
      Line.takeWhile_dropWhile_words i.shownPrefixes i.mnemonic (word :: words)
    simp only [htake, hdrop, Line.filterMap_words, hjoin]
    rw [← hcons, hrest, Line.readOperands_intercalate hchunks hcomma hread]
    rfl

end Instruction

example : Line.read "CS JMP -5" = some ⟨[.override .CS], "JMP".toList, [.number (-5)]⟩ := by
  decide +kernel

example : Line.read "REP ADD WORD ES:[BP + SI - 0x0080], 3" = some ⟨[.rep], "ADD".toList,
    [.memory .word (some .ES) .bpSi (-128), .number 3]⟩ := by
  decide +kernel

end Disasm8086
