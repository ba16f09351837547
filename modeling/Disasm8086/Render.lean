/-
Instructions as lines of assembly text. Constants are written either as
decimal integers, signed where their role allows it, or as padded
hexadecimal; branch distances are signed decimal in both styles.

A memory operand is preceded by its size only where nothing else on the
line shows it. A segment override is written with the memory operand
that it applies to, and in front of the mnemonic if there is none.
-/
import Disasm8086.Instruction
import Disasm8086.Text.Numeral

namespace Disasm8086

-- ============================================================== style

/-- How constants are written. -/
inductive ValueMode where
  | integer
  | hex
  deriving DecidableEq, Repr, Inhabited

namespace ValueMode

/-- The style with the given name, in any mixture of case. The letters
outside ASCII whose lower case has ASCII letters in it are the Kelvin
sign, for `k`, and the dotted capital `I`, for `i` and a combining dot;
no name has a `k` or a dot, so folding ASCII alone decides the same. -/
def ofName? (name : String) : Option ValueMode :=
  let folded := name.toList.map Char.toLower
  if folded ∈ ["integer".toList, "asinteger".toList, "decimal".toList] then some .integer
  else if folded ∈ ["hex".toList, "ashex".toList] then some .hex
  else none

/-- The report on a name that stands for no style. -/
def unknownNameMessage (name : String) : String :=
  "Bad value for output value mode: '" ++ name ++ "'"

end ValueMode

-- =========================================================== operands

/-- An immediate as text. -/
def Immediate.render (mode : ValueMode) (i : Immediate) : String :=
  match i.role, mode with
  | .relative, _ => Text.signed i.value.toInt
  | .plain, .integer => Text.signed i.value.toInt
  | _, .integer => Text.natural i.toWord.toNat
  | _, .hex => Text.hex i.width.hexDigits i.toWord.toNat

/-- The registers of an address, separated by plus signs. -/
def AddressingMode.render (m : AddressingMode) : String :=
  " + ".intercalate (m.registers.map Register.name)

/-- A displacement behind the registers of an address: sign and
magnitude, or nothing if it is zero. -/
def Displacement.render (mode : ValueMode) (d : Displacement) : String :=
  let value := d.value.toInt
  if value = 0 then ""
  else
    let sign := if value < 0 then " - " else " + "
    match mode with
    | .integer => sign ++ Text.natural value.natAbs
    | .hex => sign ++ Text.hex d.width.hexDigits value.natAbs

namespace MemoryReference

/-- The address of a memory operand, without its segment. -/
def renderAddress (mode : ValueMode) (m : MemoryReference) : String :=
  if m.mode = .direct then
    match mode with
    | .integer => Text.natural m.displacement.toWord.toNat
    | .hex => Text.hex Width.word.hexDigits m.displacement.toWord.toNat
  else m.mode.render ++ m.displacement.render mode

/-- A memory operand as text: an override and a bracketed address. -/
def render (mode : ValueMode) (m : MemoryReference) : String :=
  let override := match m.override with
    | some segment => segment.name ++ ":"
    | none => ""
  override ++ "[" ++ m.renderAddress mode ++ "]"

end MemoryReference

-- ======================================================= instructions

namespace Instruction

/-- The size that is written in front of a memory operand. A register
operand already shows it, unless it is the count of a shift. -/
def sizeText (i : Instruction) (m : MemoryReference) : String :=
  if i.mnemonic.isFarBranch then "FAR "
  else if i.mnemonic = .ESC then ""
  else if i.operands.any Operand.isRegister && !i.mnemonic.isShiftRotate then ""
  else
    match m.size with
    | .byte => "BYTE "
    | .word => "WORD "
    | .none => ""

/-- An operand of the instruction as text. -/
def renderOperand (i : Instruction) (mode : ValueMode) : Operand → String
  | .register r => r.name
  | .immediate c => c.render mode
  | .memory m => i.sizeText m ++ m.render mode

/-- The prefixes that are written in front of the mnemonic. -/
def prefixText (i : Instruction) : String :=
  let override := match i.segment? with
    | some segment => if i.hasMemoryOperand then "" else segment.name ++ " "
    | none => ""
  let lock := if i.isLocked then "LOCK " else ""
  let repeated := if i.isRepne then "REPNE " else if i.isRep then "REP " else ""
  override ++ lock ++ repeated

/-- Operands behind the first one, each with what divides it from the
operand before it: a colon inside a far pointer, a comma otherwise. -/
def renderFollowing (i : Instruction) (mode : ValueMode) : Operand → List Operand → String
  | _, [] => ""
  | before, operand :: rest =>
    (if before.isFarSegment then ":" else ", ") ++ i.renderOperand mode operand ++
      i.renderFollowing mode operand rest

/-- The operands as text, a blank in front of them if there are any. -/
def renderOperands (i : Instruction) (mode : ValueMode) : List Operand → String
  | [] => ""
  | operand :: rest =>
    " " ++ i.renderOperand mode operand ++ i.renderFollowing mode operand rest

/-- The instruction as one line of assembly. -/
def render (i : Instruction) (mode : ValueMode) : String :=
  i.prefixText ++ i.mnemonic.text ++ i.renderOperands mode i.operands

end Instruction

end Disasm8086
