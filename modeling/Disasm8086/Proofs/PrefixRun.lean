/-
Prefix runs factor out of decoding. What a run of prefixes does to the
instruction behind it comes to three facts: which segment override is
the last one, whether there is a lock, and which repeat prefix is the
last one. These make the prefixes of the instruction, and the first one
is also the override of its memory operand; everything else is as without
the run, faults included.

# The argument

The decoder keeps a word of flag bits, in which each prefix replaces its
own class. The three facts can be kept instead: reading one more prefix
does to them what it does to the word (`PrefixSummary.prefixes_insert`),
so by induction on the run, from its end, the word is that of the facts
(`PrefixSummary.prefixes_ofRun`).

The rest of an instruction does not look at the run, apart from the
override. So a run can be put in front of what was read without one, be
it an opening, a heading or a layout, and the six ways in which reading
can end stay what they are (`decodeNext_run_append`).
-/
import Disasm8086.Proofs.PrefixCode
import Mathlib.Data.List.Induction

namespace Disasm8086

-- ================================================================ bytes

namespace Prefix

/-- The byte that encodes a prefix. -/
def byte : Prefix → UInt8
  | .override .ES => 0x26
  | .override .CS => 0x2E
  | .override .SS => 0x36
  | .override .DS => 0x3E
  | .lock => 0xF0
  | .repne => 0xF2
  | .rep => 0xF3

/-- A prefix is read from its own byte only. -/
theorem eq_byte_of_ofByte? {b : UInt8} {p : Prefix} (h : ofByte? b = some p) : b = p.byte := by
  unfold ofByte? at h
  rcases p with (_ | _ | _ | _) | _ | _ | _ <;> grind [byte]

end Prefix

/-- Behind a byte that is no prefix there is no run. -/
theorem takeWhile_isByte_eq_nil {body : List UInt8}
    (h : ∀ b, body.head? = some b → Prefix.isByte b = false) :
    body.takeWhile Prefix.isByte = [] := by
  cases body with
  | nil => rfl
  | cons b rest => exact List.takeWhile_cons_of_neg (by simp [h b rfl])

-- =========================================================== three facts

/-- The two repeat prefixes. -/
inductive Repetition where
  | repne
  | rep
  deriving DecidableEq, Repr

/-- The flag bit of a repeat prefix. -/
def Repetition.flag : Repetition → UInt32
  | .repne => 0x100
  | .rep => 0x200

/-- What a run of prefixes amounts to. -/
structure PrefixSummary where
  override : Option Segment
  locked : Bool
  repetition : Option Repetition
  deriving DecidableEq, Repr

namespace PrefixSummary

/-- The segment that a byte overrides to, if it is an override. -/
def overrideOf? (b : UInt8) : Option Segment :=
  [(0x26, .ES), (0x2E, .CS), (0x36, .SS), (0x3E, .DS)].lookup b

/-- The repeat prefix that a byte is, if it is one. -/
def repetitionOf? (b : UInt8) : Option Repetition :=
  [(0xF2, .repne), (0xF3, .rep)].lookup b

/-- The last override, whether there is a lock, and the last repeat prefix
of a run. -/
def ofRun (run : List UInt8) : PrefixSummary where
  override := (run.filterMap overrideOf?).getLast?
  locked := run.contains 0xF0
  repetition := (run.filterMap repetitionOf?).getLast?

/-- One flag bit for each of the three, and no other bit. -/
def prefixes (s : PrefixSummary) : Prefixes :=
  ⟨s.override.elim 0 Segment.overrideFlag ||| (if s.locked then 0x080 else 0) |||
    s.repetition.elim 0 Repetition.flag⟩

/-- The three facts once one more prefix has been read. -/
def insert (s : PrefixSummary) : Prefix → PrefixSummary
  | .override segment => { s with override := some segment }
  | .lock => { s with locked := true }
  | .repne => { s with repetition := some .repne }
  | .rep => { s with repetition := some .rep }

/-- The facts and the flag bits follow each other, prefix by prefix. -/
theorem prefixes_insert (s : PrefixSummary) (p : Prefix) :
    (s.insert p).prefixes = s.prefixes.insert p := by
  obtain ⟨override, locked, repetition⟩ := s
  rcases override with _ | (_ | _ | _ | _) <;> cases locked <;>
    rcases repetition with _ | (_ | _) <;> rcases p with (_ | _ | _ | _) | _ | _ | _ <;> decide

/-- The override can be told from the flag bits. -/
theorem segment?_prefixes (s : PrefixSummary) : s.prefixes.segment? = s.override := by
  obtain ⟨override, locked, repetition⟩ := s
  rcases override with _ | (_ | _ | _ | _) <;> cases locked <;>
    rcases repetition with _ | (_ | _) <;> decide

/-- In a longer run, what comes later wins. -/
theorem ofRun_append (run run' : List UInt8) :
    ofRun (run ++ run') =
      { override := (ofRun run').override.or (ofRun run).override
        locked := (ofRun run).locked || (ofRun run').locked
        repetition := (ofRun run').repetition.or (ofRun run).repetition } := by
  simp only [ofRun, List.filterMap_append, List.getLast?_append, List.contains_append]

/-- The last prefix of a run is the last one that is inserted. -/
theorem ofRun_concat {b : UInt8} {p : Prefix} (h : Prefix.ofByte? b = some p)
    (run : List UInt8) : ofRun (run ++ [b]) = (ofRun run).insert p := by
  have hone : ofRun [p.byte] = insert ⟨none, false, none⟩ p := by
    rcases p with (_ | _ | _ | _) | _ | _ | _ <;> decide
  rw [Prefix.eq_byte_of_ofByte? h, ofRun_append, hone]
  cases p <;> simp [insert]

/-- The flag bits that the decoder gathers from a run are those of the
three facts. -/
theorem prefixes_ofRun {run : List UInt8} (hrun : ∀ b ∈ run, Prefix.isByte b = true) :
    (ofRun run).prefixes = Prefixes.ofRun run := by
  -- from the end of the run, where the decoder is when it has read the run
  induction run using List.reverseRecOn with
  | nil => rfl
  | append_singleton run b ih =>
      have hb : Prefix.isByte b = true := hrun b (by simp)
      obtain ⟨p, hp⟩ := Option.isSome_iff_exists.mp hb
      have hinit := ih fun b' hb' => hrun b' (List.mem_append_left _ hb')
      have hword : Prefixes.ofRun (run ++ [b]) = (Prefixes.ofRun run).insert p := by
        simp [Prefixes.ofRun, List.filterMap_append, hp]
      rw [ofRun_concat hp, prefixes_insert, hinit, hword]

end PrefixSummary

-- ====================================================== memory operands

/-- The operand under a segment override. -/
def Operand.withOverride (override : Option Segment) : Operand → Operand
  | .memory m => .memory { m with override }
  | operand => operand

section Override

variable (ctx : OperandContext) (override : Option Segment) (field : List UInt8)

/-- An override reaches the r/m operand, if it is in memory. -/
theorem OperandContext.rmOperand_override (size : Width) :
    { ctx with override }.rmOperand size = (ctx.rmOperand size).withOverride override := by
  unfold rmOperand memory?
  cases hm : ctx.modRM.memory? ctx.displacement size <;> rfl

/-- An override reaches the memory operands of a pattern and nothing else. -/
theorem Pattern.operandsOf_override (p : Pattern) :
    p.operandsOf { ctx with override } field
      = (p.operandsOf ctx field).map (Operand.withOverride override) := by
  cases p with
  | rm8 | rm16 | mem => exact congrArg ([·]) (ctx.rmOperand_override override _)
  | segment | segmentTarget =>
      simp only [operandsOf, List.map_map]
      rfl
  | _ => rfl

theorem Row.operandsOf_override (row : Row) :
    row.operandsOf { ctx with override } field
      = (row.operandsOf ctx field).map (Operand.withOverride override) := by
  unfold operandsOf encodedOperands
  rw [apply_ite (List.map (Operand.withOverride override)), List.map_reverse, List.map_append,
    ← Pattern.operandsOf_override, ← Pattern.operandsOf_override]

end Override

-- ====================================================== behind a run

/-- The instruction with a run of prefixes in front of it. -/
def Instruction.behind (run : List UInt8) (i : Instruction) : Instruction :=
  { i with
    length := i.length + run.length
    prefixes := (PrefixSummary.ofRun run).prefixes
    operands := i.operands.map (Operand.withOverride (PrefixSummary.ofRun run).override) }

section Behind

variable (run : List UInt8) (hrun : ∀ b ∈ run, Prefix.isByte b = true)

/-- The opening behind more prefixes. -/
def Opening.behind (o : Opening) : Opening where
  run := run ++ o.run
  opcode := o.opcode
  run_prefix b hb := (List.mem_append.mp hb).elim (hrun b) (o.run_prefix b)
  opcode_ne_prefix := o.opcode_ne_prefix

/-- The heading behind more prefixes. -/
def Heading.behind (h : Heading) : Heading where
  toOpening := h.toOpening.behind run hrun
  head := h.head
  head_size := h.head_size

/-- The layout behind more prefixes. -/
def Layout.behind (l : Layout) : Layout where
  toHeading := l.toHeading.behind run hrun
  field := l.field
  assigned := l.assigned
  accepted := l.accepted
  field_size := l.field_size

theorem Opening.bytes_behind (o : Opening) : (o.behind run hrun).bytes = run ++ o.bytes :=
  List.append_assoc run o.run [o.opcode]

theorem Heading.bytes_behind (h : Heading) : (h.behind run hrun).bytes = run ++ h.bytes := by
  rw [bytes, bytes, ← List.append_assoc, ← Opening.bytes_behind run hrun]
  rfl

/-- These prefixes are in front of its bytes. -/
theorem Layout.bytes_behind (l : Layout) : (l.behind run hrun).bytes = run ++ l.bytes := by
  rw [bytes, bytes, ← List.append_assoc, ← Heading.bytes_behind run hrun]
  rfl

/-- The instruction of a layout without prefixes, once there are some. -/
theorem Layout.instruction_behind (l : Layout) (h : l.run = []) :
    (l.behind run hrun).instruction = l.instruction.behind run := by
  have hprefixes : (l.behind run hrun).prefixes = (PrefixSummary.ofRun run).prefixes := by
    rw [PrefixSummary.prefixes_ofRun hrun]
    show Prefixes.ofRun (run ++ l.run) = _
    rw [h, List.append_nil]
  have hcontext : (l.behind run hrun).context
      = { l.context with override := (PrefixSummary.ofRun run).override } := by
    rw [← PrefixSummary.segment?_prefixes, ← hprefixes]
    rfl
  unfold instruction Instruction.behind
  rw [hprefixes, hcontext, bytes_behind, List.length_append, Nat.add_comm,
    ← Row.operandsOf_override]
  rfl

end Behind

-- ============================================================= decoding

/-- A fault that is the same behind a run is the same error there. -/
theorem decodeNext_run_append_of_error {run body : List UInt8} {fault : Fault} {next next' : Feed}
    (hread : Instruction.read (.ofBytes body) = .error fault next)
    (hread' : Instruction.read (.ofBytes (run ++ body)) = .error fault next') :
    decodeNext (run ++ body) = (decodeNext body).map (Instruction.behind run) := by
  rw [decodeNext_of_read_error hread, decodeNext_of_read_error hread']
  rfl

/-- Every way of reading a body is the way of reading it behind a run. -/
theorem decodeNext_run_append {run body : List UInt8}
    (hrun : ∀ b ∈ run, Prefix.isByte b = true) (hbody : body.takeWhile Prefix.isByte = []) :
    decodeNext (run ++ body) = (decodeNext body).map (Instruction.behind run) := by
  have hreading := reading_read body
  generalize hread : Instruction.read (.ofBytes body) = result at hreading
  cases hreading with
  | exhausted hprefix =>
      -- nothing but prefixes, and none of them
      have hempty : body = [] := by
        rw [← hbody, List.takeWhile_eq_self_iff.mpr hprefix]
      subst hempty
      have hread' := read_run hrun
      rw [← List.append_nil run] at hread'
      exact decodeNext_run_append_of_error hread hread'
  | @shortHead o tail next hshort _ =>
      obtain ⟨next', hread', -⟩ := (o.behind run hrun).read_of_short_head hshort
      rw [o.bytes_behind, List.append_assoc] at hread'
      exact decodeNext_run_append_of_error hread hread'
  | unassigned h rest hrow =>
      have hread' := (h.behind run hrun).read_of_unassigned rest hrow
      rw [h.bytes_behind, List.append_assoc] at hread'
      exact decodeNext_run_append_of_error hread hread'
  | refused h rest hrow hrefused =>
      have hread' := (h.behind run hrun).read_of_refused rest hrow hrefused
      rw [h.bytes_behind, List.append_assoc] at hread'
      exact decodeNext_run_append_of_error hread hread'
  | @shortField h rest next hrow haccepted hshort _ =>
      obtain ⟨next', hread', -⟩ :=
        (h.behind run hrun).read_of_short_field rest hrow haccepted hshort
      rw [h.bytes_behind, List.append_assoc] at hread'
      exact decodeNext_run_append_of_error hread hread'
  | accepted l rest =>
      -- only without prefixes of its own does the layout get those of the run alone
      have hempty : l.run = [] := by
        rw [← hbody, Layout.bytes, Heading.bytes, List.append_assoc, List.append_assoc,
          l.toOpening.takeWhile_append]
      have hread' := (l.behind run hrun).read_append rest
      rw [l.bytes_behind, List.append_assoc] at hread'
      rw [decodeNext_of_read_ok hread, decodeNext_of_read_ok hread',
        l.instruction_behind run hrun hempty]
      rfl

/-- Runs of one length with one summary are interchangeable, whatever
follows them. -/
theorem decodeNext_run_congr {run run' : List UInt8}
    (hrun : ∀ b ∈ run, Prefix.isByte b = true) (hrun' : ∀ b ∈ run', Prefix.isByte b = true)
    (hlength : run'.length = run.length)
    (hsummary : PrefixSummary.ofRun run' = PrefixSummary.ofRun run) (tail : List UInt8) :
    decodeNext (run' ++ tail) = decodeNext (run ++ tail) := by
  -- what follows may begin with prefixes of its own, which belong to both runs
  have hsplit : tail.takeWhile Prefix.isByte ++ tail.dropWhile Prefix.isByte = tail :=
    List.takeWhile_append_dropWhile
  have hmore : ∀ b ∈ tail.takeWhile Prefix.isByte, Prefix.isByte b = true :=
    fun b hb => List.mem_takeWhile_imp hb
  have hbody : (tail.dropWhile Prefix.isByte).takeWhile Prefix.isByte = [] := by
    refine takeWhile_isByte_eq_nil fun b hb => ?_
    have hhead := List.head?_dropWhile_not Prefix.isByte tail
    rw [hb] at hhead
    simpa using hhead
  have hfull : ∀ b ∈ run ++ tail.takeWhile Prefix.isByte, Prefix.isByte b = true :=
    fun b hb => (List.mem_append.mp hb).elim (hrun b) (hmore b)
  have hfull' : ∀ b ∈ run' ++ tail.takeWhile Prefix.isByte, Prefix.isByte b = true :=
    fun b hb => (List.mem_append.mp hb).elim (hrun' b) (hmore b)
  have hbehind : Instruction.behind (run' ++ tail.takeWhile Prefix.isByte)
      = Instruction.behind (run ++ tail.takeWhile Prefix.isByte) := by
    unfold Instruction.behind
    rw [PrefixSummary.ofRun_append, PrefixSummary.ofRun_append, hsummary, List.length_append,
      List.length_append, hlength]
  rw [← hsplit, ← List.append_assoc, ← List.append_assoc, decodeNext_run_append hfull' hbody,
    decodeNext_run_append hfull hbody, hbehind]

-- ========================================================= the statement

/-- A run of prefixes in front of a body changes only what it is for: the
body decodes exactly if it does without the run, to the same instruction
but for its length, its prefixes and the override of its memory operand,
and it has the same fault otherwise. So runs of one length that agree in
their last override, in their last repeat prefix and in whether there is
a lock cannot be told apart. -/
theorem decodeNext_factors_prefix_run {run body : List UInt8}
    (hrun : ∀ b ∈ run, Prefix.isByte b = true)
    (hbody : ∀ b, body.head? = some b → Prefix.isByte b = false) :
    ((∃ j, decodeNext (run ++ body) = .ok j) ↔ ∃ i, decodeNext body = .ok i)
      ∧ (∀ i, decodeNext body = .ok i → decodeNext (run ++ body) = .ok
          { i with
            length := i.length + run.length
            prefixes := (PrefixSummary.ofRun run).prefixes
            operands := i.operands.map (·.withOverride (PrefixSummary.ofRun run).override) })
      ∧ (∀ e, decodeNext body = .error e → e.offset = 0 ∧ decodeNext (run ++ body) = .error e)
      ∧ ∀ run' : List UInt8, (∀ b ∈ run', Prefix.isByte b = true) →
          run'.length = run.length → PrefixSummary.ofRun run' = PrefixSummary.ofRun run →
          ∀ tail, decodeNext (run' ++ tail) = decodeNext (run ++ tail) := by
  have hdecode := decodeNext_run_append hrun (takeWhile_isByte_eq_nil hbody)
  refine ⟨?_, fun i hi => ?_, fun e he => ?_, fun run' hrun' hlength hsummary =>
    decodeNext_run_congr hrun hrun' hlength hsummary⟩
  · rw [hdecode]
    cases decodeNext body with
    | ok i => exact ⟨fun _ => ⟨i, rfl⟩, fun _ => ⟨_, rfl⟩⟩
    | error e => simp [Except.map]
  · rw [hdecode, hi]
    rfl
  · obtain ⟨fault, next, -, rfl⟩ := exists_read_error_of_decodeNext he
    rw [hdecode, he]
    exact ⟨rfl, rfl⟩

/-- A move to memory behind two overrides, a lock and both repeat
prefixes, and behind another run with the same three facts; and a load
of an address that names a register. -/
theorem decodeNext_factors_prefix_run_of_move :
    decodeNext ([0xF0, 0x26, 0xF2, 0x3E, 0xF3] ++ [0x89, 0x4F, 0x04]) = .ok
        { opcode := 0x89, length := 8, mnemonic := .MOV, width := .word
          operands := [.memory ⟨.bx, .byte 4, some .DS, .word⟩, .register .CX]
          prefixes := ⟨0x2A0⟩ }
      ∧ decodeNext ([0x3E, 0xF3, 0xF0, 0xF0, 0xF3] ++ [0x26, 0x89, 0x4F, 0x04])
          = decodeNext ([0xF0, 0x26, 0xF2, 0x3E, 0xF3] ++ [0x26, 0x89, 0x4F, 0x04])
      ∧ decodeNext ([0xF0, 0x26, 0xF2, 0x3E, 0xF3] ++ [0x8D, 0xC1])
          = .error ⟨0, .invalidOperand 0x8D 0xC1⟩ := by
  have hrun : ∀ b ∈ [0xF0, 0x26, 0xF2, 0x3E, 0xF3], Prefix.isByte b = true :=
    List.all_eq_true.mp (by decide)
  have hrun' : ∀ b ∈ [0x3E, 0xF3, 0xF0, 0xF0, 0xF3], Prefix.isByte b = true :=
    List.all_eq_true.mp (by decide)
  have hmove : decodeNext [0x89, 0x4F, 0x04] = .ok
      { opcode := 0x89, length := 3, mnemonic := .MOV, width := .word
        operands := [.memory ⟨.bx, .byte 4, none, .word⟩, .register .CX] } := by decide +kernel
  have hload : decodeNext [0x8D, 0xC1] = .error ⟨0, .invalidOperand 0x8D 0xC1⟩ := by
    decide +kernel
  obtain ⟨-, hok, -, hcongr⟩ := @decodeNext_factors_prefix_run _ [0x89, 0x4F, 0x04] hrun
    (by rintro b ⟨⟩; decide)
  obtain ⟨-, -, herror, -⟩ := @decodeNext_factors_prefix_run _ [0x8D, 0xC1] hrun
    (by rintro b ⟨⟩; decide)
  refine ⟨?_, hcongr _ hrun' rfl (by decide) _, (herror _ hload).2⟩
  rw [hok _ hmove]
  decide +kernel

end Disasm8086
