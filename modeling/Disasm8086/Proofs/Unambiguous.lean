/-
Assembly text is unambiguous. Two decoded instructions with the same text
have the same prefixes, mnemonic and width, and pairwise the same
operands. What may differ is how they were encoded: the opcode, the
length, how a displacement is abbreviated, and the width of a branch
distance of `JMP`.

# The argument

Instructions with one text have one line (`Instruction.read_render`). It
remains to find the instruction in its line, and each part is a function
of the line:

- the mnemonic, from the word and from whether an operand is far
  (`Layout.mnemonic?_line`): near and far branches share their spelling;
- the width, from the mnemonic or the first operand that shows one
  (`Layout.width_line`): registers do, sizes in front of memory operands
  do, and one of the two is there whenever it is needed;
- the prefixes, from the words in front and the override of a memory
  operand (`Layout.prefixes_line`);
- the operands, given the mnemonic and the width (`same_of_token_eq`):
  these tell how a number was meant, and so which value it was.
-/
import Disasm8086.Proofs.AssemblyText
import Disasm8086.Proofs.OperandKind
import Mathlib.Data.List.Forall2

namespace Disasm8086

open Assembly

-- =========================================================== prefixes

namespace Prefixes

/-- The word that a list of prefixes leads to. -/
def ofList (ps : List Prefix) : Prefixes := ps.foldl insert empty

/-- The prefixes in force, one of a class. -/
def toList (ps : Prefixes) : List Prefix := (ps.segment?.map .override).toList ++ ps.modifiers

/-- The words that runs of prefixes lead to. -/
def reachable : List Prefixes :=
  (none :: Segment.all.map some).flatMap fun segment =>
    [[], [.lock]].flatMap fun lock => [[], [.repne], [.rep]].map fun repetition =>
      ofList ((segment.map .override).toList ++ lock ++ repetition)

/-- One more prefix leads to one of these words again. -/
theorem foldl_insert_mem_reachable (ps : List Prefix) {start : Prefixes}
    (h : start ∈ reachable) : ps.foldl insert start ∈ reachable := by
  have hstep : ∀ word ∈ reachable, ∀ p ∈ Prefix.all, word.insert p ∈ reachable := by
    decide +kernel
  induction ps generalizing start with
  | nil => exact h
  | cons p ps ih => exact ih (hstep start h p p.mem_all)

/-- A run amounts to the prefixes that remain in force. -/
theorem ofList_toList_ofRun (run : List UInt8) : ofList (ofRun run).toList = ofRun run := by
  have hreachable : ofRun run ∈ reachable :=
    foldl_insert_mem_reachable _ (by decide +kernel)
  have hall : ∀ word ∈ reachable, ofList word.toList = word := by decide +kernel
  exact hall _ hreachable

end Prefixes

-- ============================================================== lines

namespace Mnemonic

/-- Operations whose width no operand shows. -/
def ownWidth? : Mnemonic → Option Width
  | .AAM | .AAD | .XLAT | .MOVSB | .CMPSB | .STOSB | .LODSB | .SCASB => some .byte
  | .MOVSW | .CMPSW | .STOSW | .LODSW | .SCASW => some .word
  | .ESC => some .none
  | _ => none

/-- The width of an operation whose operands show the given widths. The
port of an output comes first and shows nothing. -/
def widthShown (m : Mnemonic) (shown : List (Option Width)) : Width :=
  let ordered := if m = .OUT then shown.reverse else shown
  m.ownWidth?.getD ((ordered.findSome? id).getD .none)

end Mnemonic

namespace Assembly

/-- The width that a size mark tells. -/
def SizeMark.width? : SizeMark → Option Width
  | .silent => none
  | .byte => some .byte
  | .word | .far => some .word

namespace Token

/-- The width that a token tells: a register has one, and a size mark gives
one. -/
def width? : Token → Option Width
  | .register r => some r.width
  | .memory mark _ _ _ => mark.width?
  | _ => none

/-- Whether a token is that of a far branch. -/
def isFar : Token → Bool
  | .farPointer _ _ => true
  | .memory mark _ _ _ => decide (mark = .far)
  | _ => false

/-- The override that a token shows. Only a memory operand can show one. -/
def override? : Token → Option (Option Segment)
  | .memory _ override _ _ => some override
  | _ => none

end Token

namespace Line

variable (line : Line)

/-- The operation, by its word. Near and far branches share theirs, and the
tokens tell which it is. -/
def mnemonic? : Option Mnemonic :=
  Mnemonic.all.find? fun m =>
    m.text.toList == line.word && m.isFarBranch == line.tokens.any Token.isFar

/-- The width of the operation, as far as the tokens show it. -/
def width (m : Mnemonic) : Width := m.widthShown (line.tokens.map Token.width?)

/-- The prefixes in front of the line, and the override inside an operand. -/
def allPrefixes : Prefixes :=
  .ofList (((line.tokens.findSome? Token.override?).join.map .override).toList ++ line.prefixes)

end Line

end Assembly

-- ============================================================= shapes

/-- The operands of near operations are told by their tokens one by one;
a far branch has a memory operand or a far pointer. -/
inductive Instruction.Shape (i : Instruction) : Prop where
  | near (h : i.mnemonic.isFarBranch = false)
  | farMemory (m : MemoryReference) (h : i.mnemonic.isFarBranch = true)
      (hoperands : i.operands = [.memory m])
  | farPointer (segment offset : Immediate) (h : i.mnemonic.isFarBranch = true)
      (hsegment : segment.role = .farSegment ∧ segment.width = .word)
      (hoffset : offset.role = .farOffset ∧ offset.width = .word)
      (hoperands : i.operands = [.immediate segment, .immediate offset])

namespace Layout

variable (l : Layout) (mode : ValueMode)

theorem shape : l.instruction.Shape := by
  cases hfar : l.instruction.mnemonic.isFarBranch with
  | false => exact .near hfar
  | true =>
      have hkinds := l.kinds_of_isFarBranch hfar
      match hoperands : l.instruction.operands with
      | [.memory m] => exact .farMemory m hfar hoperands
      | [.immediate segment, .immediate offset] =>
          simp [hoperands, Operand.kind, Operand.Kind.farPointer] at hkinds
          exact .farPointer segment offset hfar hkinds.1 hkinds.2 hoperands
      | [] | .register _ :: _ | .memory _ :: _ :: _ | [.immediate _]
      | .immediate _ :: .register _ :: _ | .immediate _ :: .memory _ :: _
      | .immediate _ :: .immediate _ :: _ :: _ =>
          simp [hoperands, Operand.kind, Operand.Kind.farPointer] at hkinds

/-- Half a far pointer is an operand of far branches alone. -/
theorem isFarSegment_of_near (h : l.instruction.mnemonic.isFarBranch = false)
    {operand : Operand} (hoperand : operand ∈ l.instruction.operands) :
    operand.isFarSegment = false := by
  have hrole : ∀ m : Mnemonic, m.constantRole ≠ .farSegment := by
    intro m
    unfold Mnemonic.constantRole
    split <;> decide
  have hfits := l.fits_operand hoperand
  cases operand with
  | register r => rfl
  | memory m => rfl
  | immediate c =>
      simp only [Operand.kind, Operand.Kind.fits, h, Bool.false_or, Bool.and_eq_true,
        decide_eq_true_eq] at hfits
      simp [Operand.isFarSegment, hfits.1, hrole]

/-- Only the numbers of a far pointer need each other. -/
theorem operands_cases :
    (∀ operand ∈ l.instruction.operands, operand.isFarSegment = false
      ∧ (operand.isMemory = true ∨ l.instruction.mnemonic.isFarBranch = false))
    ∨ ∃ segment offset : Immediate,
        l.instruction.operands = [.immediate segment, .immediate offset]
        ∧ (segment.role = .farSegment ∧ segment.width = .word)
        ∧ (offset.role = .farOffset ∧ offset.width = .word) := by
  cases l.shape with
  | near h => exact Or.inl fun _ hoperand => ⟨l.isFarSegment_of_near h hoperand, Or.inr h⟩
  | farMemory m h hoperands =>
      refine Or.inl fun operand hoperand => ?_
      rw [hoperands] at hoperand
      rw [List.mem_singleton.mp hoperand]
      exact ⟨rfl, Or.inl rfl⟩
  | farPointer segment offset h hsegment hoffset hoperands =>
      exact Or.inr ⟨segment, offset, hoperands, hsegment, hoffset⟩

theorem paired : l.instruction.Paired := by
  rcases l.operands_cases with hplain | ⟨segment, offset, hoperands, hsegment, -⟩
  · exact .plain fun operand hoperand => (hplain operand hoperand).1
  · exact .far hsegment.1 hoperands

/-- All other operands are shown one by one. -/
theorem tokens_cases :
    l.instruction.tokens mode = l.instruction.operands.map (l.instruction.token mode)
    ∨ ∃ segment offset : Immediate,
        l.instruction.operands = [.immediate segment, .immediate offset]
        ∧ l.instruction.tokens mode
          = [.farPointer (segment.written mode) (offset.written mode)] := by
  cases l.paired with
  | plain h => exact Or.inl (l.instruction.tokens_of_plain mode h)
  | @far segment offset hrole h =>
      exact Or.inr ⟨segment, offset, h, l.instruction.tokens_of_far mode hrole h⟩

end Layout

-- ======================================================= the mnemonic

/-- The size mark of a far branch is for far branches alone. -/
theorem Assembly.SizeMark.of_eq_far_iff (m : Mnemonic) (besideRegister : Bool) (size : Width) :
    SizeMark.of m besideRegister size = .far ↔ m.isFarBranch = true := by
  unfold SizeMark.of
  by_cases hfar : m.isFarBranch = true
  · simp [hfar]
  · rw [if_neg hfar]
    refine iff_of_false ?_ hfar
    split
    · decide
    · split
      · decide
      · cases size <;> decide

/-- A near operation shows no far token. -/
theorem Instruction.isFar_token {i : Instruction} (h : i.mnemonic.isFarBranch = false)
    (mode : ValueMode) (operand : Operand) : (i.token mode operand).isFar = false := by
  cases operand with
  | register r => rfl
  | immediate c => rfl
  | memory m => simp [token, Token.isFar, sizeMark, SizeMark.of_eq_far_iff, h]

namespace Layout

variable (l : Layout) (mode : ValueMode)

/-- So a far branch is one that shows a far token. -/
theorem any_isFar_tokens :
    (l.instruction.tokens mode).any Token.isFar = l.instruction.mnemonic.isFarBranch := by
  cases l.shape with
  | near h =>
      rw [l.instruction.tokens_of_plain mode fun _ => l.isFarSegment_of_near h, h]
      simp [Instruction.isFar_token h]
  | farMemory m h hoperands =>
      have hmark : l.instruction.sizeMark m = .far := (SizeMark.of_eq_far_iff _ _ _).mpr h
      simp [Instruction.tokens, hoperands, Instruction.token, Token.isFar, hmark, h]
  | farPointer segment offset h hsegment hoffset hoperands =>
      rw [l.instruction.tokens_of_far mode hsegment.1 hoperands, h]
      rfl

/-- The operation can be told from the line. -/
theorem mnemonic?_line :
    (l.instruction.line mode).mnemonic? = some l.instruction.mnemonic := by
  have hall : ∀ m ∈ Mnemonic.all, (Mnemonic.all.find? fun m' =>
      m'.text.toList == m.text.toList && m'.isFarBranch == m.isFarBranch) = some m := by
    decide +kernel
  unfold Line.mnemonic? Instruction.line
  rw [l.any_isFar_tokens mode]
  exact hall _ (Mnemonic.mem_all _)

end Layout

-- ========================================================== the width

namespace Operand.Kind

/-- Whether it is a register. -/
def isRegister : Kind → Bool
  | .register _ => true
  | _ => false

/-- The width that an operand of this kind shows. -/
def width? (m : Mnemonic) (besideRegister : Bool) : Kind → Option Width
  | .register width => some width
  | .memory size => (SizeMark.of m besideRegister size).width?
  | .immediate _ _ => none

end Operand.Kind

namespace Layout

variable (l : Layout) (mode : ValueMode)

/-- Every row has the width that its operands show. -/
theorem width_eq_widthShown : l.instruction.width = l.instruction.mnemonic.widthShown
    ((l.instruction.operands.map Operand.kind).map (Operand.Kind.width? l.instruction.mnemonic
      ((l.instruction.operands.map Operand.kind).any Operand.Kind.isRegister))) := by
  have hlaw := law_of_every (fun m width kinds => decide (width = m.widthShown
    (kinds.map (Operand.Kind.width? m (kinds.any Operand.Kind.isRegister)))))
    (by decide +kernel) l
  exact of_decide_eq_true hlaw

/-- The width can be told from the line. -/
theorem width_line : (l.instruction.line mode).width l.instruction.mnemonic
    = l.instruction.width := by
  have hregister : (l.instruction.operands.map Operand.kind).any Operand.Kind.isRegister
      = l.instruction.operands.any Operand.isRegister := by
    rw [List.any_map]
    congr 1
    funext operand
    cases operand <;> rfl
  rw [l.width_eq_widthShown, hregister, Line.width, List.map_map]
  show l.instruction.mnemonic.widthShown ((l.instruction.tokens mode).map Token.width?) = _
  rcases l.tokens_cases mode with htokens | ⟨segment, offset, hoperands, htokens⟩
  · rw [htokens, List.map_map]
    congr 2
    funext operand
    cases operand <;> rfl
  · -- neither of the numbers shows a width
    rw [htokens, hoperands]
    unfold Mnemonic.widthShown
    split <;> rfl

end Layout

-- ======================================================= the prefixes

namespace Instruction

variable (i : Instruction) (mode : ValueMode)

/-- Memory operands show the override that they all have. -/
theorem findSome?_override_map {override : Option Segment} {operands : List Operand}
    (h : ∀ operand ∈ operands, operand.Regular override) :
    (operands.map (i.token mode)).findSome? Token.override?
      = if operands.any Operand.isMemory then some override else none := by
  induction operands with
  | nil => rfl
  | cons operand operands ih =>
      have hrest := ih fun o ho => h o (List.mem_cons_of_mem operand ho)
      cases operand with
      | register r => exact hrest
      | immediate c => exact hrest
      | memory m =>
          have hoverride : m.override = override := h (.memory m) List.mem_cons_self
          rw [← hoverride]
          rfl

end Instruction

namespace Layout

variable (l : Layout) (mode : ValueMode)

/-- The override is shown wherever there is a memory operand. -/
theorem findSome?_override_tokens : (l.instruction.tokens mode).findSome? Token.override?
    = if l.instruction.hasMemoryOperand then some l.instruction.segment? else none := by
  rcases l.tokens_cases mode with htokens | ⟨segment, offset, hoperands, htokens⟩
  · rw [htokens]
    exact l.instruction.findSome?_override_map mode fun _ => l.regular_operand
  · rw [htokens, Instruction.hasMemoryOperand, hoperands]
    rfl

/-- The prefixes can be told from the line. -/
theorem allPrefixes_line : (l.instruction.line mode).allPrefixes = l.instruction.prefixes := by
  have hlist : (((l.instruction.tokens mode).findSome? Token.override?).join.map
      Prefix.override).toList ++ l.instruction.shownPrefixes = l.instruction.prefixes.toList := by
    rw [l.findSome?_override_tokens, Instruction.shownPrefixes, Prefixes.toList]
    cases l.instruction.hasMemoryOperand <;> rfl
  show Prefixes.ofList _ = _
  rw [show (l.instruction.line mode).tokens = l.instruction.tokens mode from rfl,
    show (l.instruction.line mode).prefixes = l.instruction.shownPrefixes from rfl, hlist]
  exact Prefixes.ofList_toList_ofRun l.run

end Layout

-- ======================================================= the operands

/-- Operands that mean the same to an operation. How a displacement is
abbreviated does not matter, nor how wide a distance of `JMP` is. -/
def Operand.Same (m : Mnemonic) : Operand → Operand → Prop
  | .register r, .register r' => r = r'
  | .memory a, .memory b => a.mode = b.mode ∧ a.override = b.override ∧ a.size = b.size
    ∧ a.displacement.value = b.displacement.value
  | .immediate c, .immediate c' => c.value = c'.value ∧ c.role = c'.role
    ∧ (c.width = c'.width ∨ m = .JMP ∧ c.role = .relative)
  | _, _ => False

theorem Int16.toUInt16_inj {a b : Int16} (h : a.toUInt16 = b.toUInt16) : a = b := by
  simpa using congrArg UInt16.toInt16 h

/-- The written number tells the displacement, once the mode is known: an
address has no sign. -/
theorem MemoryReference.value_of_written_eq {a b : MemoryReference} (hmode : a.mode = b.mode)
    (h : a.written = b.written) : a.displacement.value = b.displacement.value := by
  unfold written at h
  rw [hmode] at h
  split at h
  · exact Int16.toUInt16_inj (UInt16.toNat_inj.mp (Int.ofNat.inj h))
  · exact Int16.toInt_inj.mp h

namespace Immediate

variable {c c' : Immediate}

/-- The encoded bits stand for one value, once their width is known. -/
theorem value_of_toWord_eq (hc : c.IsExtended) (hc' : c'.IsExtended)
    (hwidth : c.width = c'.width) (h : c.toWord = c'.toWord) : c.value = c'.value := by
  unfold toWord at h
  rw [hwidth] at h
  split at h
  case h_1 hbyte =>
    rw [hc (hwidth.trans hbyte), hc' hbyte, UInt8.toUInt16_inj.mp h]
  case h_2 => exact Int16.toUInt16_inj h

/-- So does the number that is written, once its role is known. -/
theorem value_of_written_eq {mode : ValueMode} (hc : c.IsExtended) (hc' : c'.IsExtended)
    (hrole : c.role = c'.role) (hwidth : c.width = c'.width ∨ c.role = .relative)
    (h : c.written mode = c'.written mode) : c.value = c'.value := by
  unfold written at h
  rw [← hrole] at h
  split at h
  case h_1 => exact Int16.toInt_inj.mp h
  case h_2 => exact Int16.toInt_inj.mp h
  case h_3 hrelative _ =>
    have hsame : c.width = c'.width := hwidth.resolve_right hrelative
    exact value_of_toWord_eq hc hc' hsame (UInt16.toNat_inj.mp (Int.ofNat.inj h))

/-- Words of one role need no mnemonic to tell them. -/
theorem same_of_word {mode : ValueMode} {role : Role} (m : Mnemonic)
    (hc : c.role = role ∧ c.width = .word) (hc' : c'.role = role ∧ c'.width = .word)
    (h : c.written mode = c'.written mode) : (Operand.immediate c).Same m (.immediate c') := by
  have hextended : ∀ {c : Immediate}, c.width = .word → c.IsExtended := by
    intro c hword hbyte
    rw [hword] at hbyte
    cases hbyte
  have hrole : c.role = c'.role := hc.1.trans hc'.1.symm
  have hwidth : c.width = c'.width := hc.2.trans hc'.2.symm
  refine ⟨?_, hrole, Or.inl hwidth⟩
  exact value_of_written_eq (hextended hc.2) (hextended hc'.2) hrole (Or.inl hwidth) h

end Immediate

namespace Layout

variable {l l' : Layout} {mode : ValueMode}

/-- Near operands that are shown alike mean the same. -/
theorem same_of_token_eq (hmnemonic : l.instruction.mnemonic = l'.instruction.mnemonic)
    (hwidth : l.instruction.width = l'.instruction.width) {operand operand' : Operand}
    (hmem : operand ∈ l.instruction.operands) (hmem' : operand' ∈ l'.instruction.operands)
    (hnear : operand.isMemory = true ∨ l.instruction.mnemonic.isFarBranch = false)
    (h : l.instruction.token mode operand = l'.instruction.token mode operand') :
    operand.Same l.instruction.mnemonic operand' := by
  have hfits := l.fits_operand hmem
  have hfits' := l'.fits_operand hmem'
  rw [← hmnemonic, ← hwidth] at hfits'
  have hregular := l.regular_operand hmem
  have hregular' := l'.regular_operand hmem'
  match operand, operand' with
  | .register r, .register r' => exact Token.register.inj h
  | .memory m, .memory m' =>
      obtain ⟨-, hoverride, hmode, hwritten⟩ := Token.memory.inj h
      refine ⟨hmode, hoverride, ?_, MemoryReference.value_of_written_eq hmode hwritten⟩
      exact (of_decide_eq_true hfits).trans (of_decide_eq_true hfits').symm
  | .immediate c, .immediate c' =>
      -- mnemonic and width give the role and the width of a constant
      have hfar := hnear.resolve_left Bool.false_ne_true
      simp only [Operand.kind, Operand.Kind.fits, hfar, Bool.false_or, Bool.and_eq_true,
        Bool.or_eq_true, decide_eq_true_eq] at hfits hfits'
      have hrole : c.role = c'.role := hfits.1.trans hfits'.1.symm
      have hconstant : c.width = c'.width
          ∨ l.instruction.mnemonic = .JMP ∧ c.role = .relative := by
        by_cases hjump : l.instruction.mnemonic = .JMP
        · refine Or.inr ⟨hjump, ?_⟩
          rw [hfits.1, hjump]
          rfl
        · have hc := hfits.2.resolve_left hjump
          have hc' := hfits'.2.resolve_left hjump
          exact Or.inl (hc.trans hc'.symm)
      refine ⟨?_, hrole, hconstant⟩
      exact Immediate.value_of_written_eq hregular hregular' hrole (hconstant.imp_right And.right)
        (Token.number.inj h)
  | .register _, .memory _ | .register _, .immediate _ | .memory _, .register _
  | .memory _, .immediate _ | .immediate _, .register _ | .immediate _, .memory _ => cases h

/-- Operands that are shown alike mean the same, one by one. -/
theorem forall₂_same (hmnemonic : l.instruction.mnemonic = l'.instruction.mnemonic)
    (hwidth : l.instruction.width = l'.instruction.width)
    (h : l.instruction.tokens mode = l'.instruction.tokens mode) :
    List.Forall₂ (Operand.Same l.instruction.mnemonic) l.instruction.operands
      l'.instruction.operands := by
  -- a far pointer is never shown operand by operand
  have hnever : ∀ (i : Instruction) (operands : List Operand) (n n' : Int),
      operands.map (i.token mode) ≠ [.farPointer n n'] := by
    rintro i ((_ | _ | _) | ⟨(_ | _ | _), _⟩) n n' <;> simp [Instruction.token]
  rcases l.operands_cases with hplain | ⟨segment, offset, hoperands, hsegment, hoffset⟩
  · rw [l.instruction.tokens_of_plain mode fun o ho => (hplain o ho).1] at h
    rcases l'.operands_cases with hplain' | ⟨_, _, hoperands', hsegment', -⟩
    · rw [l'.instruction.tokens_of_plain mode fun o ho => (hplain' o ho).1,
        ← List.forall₂_eq_eq_eq, List.forall₂_map_left_iff, List.forall₂_map_right_iff,
        List.forall₂_iff_zip] at h
      refine List.forall₂_iff_zip.mpr ⟨h.1, fun hpair => ?_⟩
      obtain ⟨hmem, hmem'⟩ := List.of_mem_zip hpair
      exact same_of_token_eq hmnemonic hwidth hmem hmem' (hplain _ hmem).2 (h.2 hpair)
    · rw [l'.instruction.tokens_of_far mode hsegment'.1 hoperands'] at h
      exact absurd h (hnever _ _ _ _)
  · rw [l.instruction.tokens_of_far mode hsegment.1 hoperands] at h
    rcases l'.operands_cases with hplain' | ⟨_, _, hoperands', hsegment', hoffset'⟩
    · rw [l'.instruction.tokens_of_plain mode fun o ho => (hplain' o ho).1] at h
      exact absurd h.symm (hnever _ _ _ _)
    · rw [l'.instruction.tokens_of_far mode hsegment'.1 hoperands', List.cons.injEq,
        Token.farPointer.injEq] at h
      rw [hoperands, hoperands']
      exact .cons (Immediate.same_of_word _ hsegment hsegment' h.1.1)
        (.cons (Immediate.same_of_word _ hoffset hoffset' h.1.2) .nil)

end Layout

-- =========================================================== the text

/-- Instructions with the same text are the same but for their encoding. -/
theorem render_determines_meaning {bytes bytes' : List UInt8} {i i' : Instruction}
    {mode : ValueMode} (h : decodeNext bytes = .ok i) (h' : decodeNext bytes' = .ok i')
    (htext : i.render mode = i'.render mode) :
    i.prefixes = i'.prefixes ∧ i.mnemonic = i'.mnemonic ∧ i.width = i'.width
      ∧ i.operands.length = i'.operands.length
      ∧ List.Forall₂ (Operand.Same i.mnemonic) i.operands i'.operands := by
  obtain ⟨l, -, -, rfl⟩ := decodeNext_eq_ok_iff.mp h
  obtain ⟨l', -, -, rfl⟩ := decodeNext_eq_ok_iff.mp h'
  have hline : l.instruction.line mode = l'.instruction.line mode := by
    refine Option.some.inj ?_
    rw [← Instruction.read_render l.paired, ← Instruction.read_render l'.paired, htext]
  have hmnemonic : l.instruction.mnemonic = l'.instruction.mnemonic := by
    refine Option.some.inj ?_
    rw [← l.mnemonic?_line mode, ← l'.mnemonic?_line mode, hline]
  have hwidth : l.instruction.width = l'.instruction.width := by
    rw [← l.width_line mode, ← l'.width_line mode, hline, hmnemonic]
  have hprefixes : l.instruction.prefixes = l'.instruction.prefixes := by
    rw [← l.allPrefixes_line mode, ← l'.allPrefixes_line mode, hline]
  have hoperands := Layout.forall₂_same hmnemonic hwidth (congrArg Line.tokens hline)
  exact ⟨hprefixes, hmnemonic, hwidth, hoperands.length_eq, hoperands⟩

/-- A short and a near jump, the second behind an override that is
replaced. -/
theorem render_determines_meaning_of_jumps : ∃ i i' : Instruction,
    decodeNext [0x2E, 0xEB, 0xFB] = .ok i
      ∧ decodeNext [0x26, 0x2E, 0xE9, 0xFB, 0xFF] = .ok i'
      ∧ i.render .hex = "CS JMP -5" ∧ i'.render .hex = "CS JMP -5"
      ∧ i.prefixes = i'.prefixes ∧ i.operands ≠ i'.operands
      ∧ List.Forall₂ (Operand.Same i.mnemonic) i.operands i'.operands := by
  have hshort : decodeNext [0x2E, 0xEB, 0xFB]
      = .ok ⟨0xEB, 3, .JMP, .none, [.immediate (.relativeByte (-5))], ⟨8⟩⟩ := by decide +kernel
  have hnear : decodeNext [0x26, 0x2E, 0xE9, 0xFB, 0xFF]
      = .ok ⟨0xE9, 5, .JMP, .none, [.immediate (.relativeWord (-5))], ⟨8⟩⟩ := by decide +kernel
  obtain ⟨hprefixes, -, -, -, hoperands⟩ :=
    @render_determines_meaning _ _ _ _ .hex hshort hnear (by decide +kernel)
  exact ⟨_, _, hshort, hnear, by decide +kernel, by decide +kernel, hprefixes, by decide,
    hoperands⟩

end Disasm8086
