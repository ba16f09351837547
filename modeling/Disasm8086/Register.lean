/-
Operand widths, the registers of the 8086, and the numbers by which an
encoding names them. Byte registers, word registers and segment registers
are numbered separately, in the order of the three tables below; a ModRM
byte or an opcode holds such a number and never a name.
-/

namespace Disasm8086

-- ============================================================= widths

/-- How wide an operand or an operation is. `none` stands for operations
that have no operand size of their own. -/
inductive Width where
  | none
  | byte
  | word
  deriving DecidableEq, Repr, Inhabited

/-- Digits that a value of this width takes in hexadecimal. -/
def Width.hexDigits : Width → Nat
  | .byte => 2
  | _ => 4

-- ========================================================== registers

/-- The byte, word and segment registers, each group in numbering order. -/
inductive Register where
  | AL | CL | DL | BL | AH | CH | DH | BH
  | AX | CX | DX | BX | SP | BP | SI | DI
  | ES | CS | SS | DS
  deriving DecidableEq, Repr, Inhabited

namespace Register

/-- All registers, in declaration order. -/
def all : List Register :=
  [.AL, .CL, .DL, .BL, .AH, .CH, .DH, .BH,
   .AX, .CX, .DX, .BX, .SP, .BP, .SI, .DI,
   .ES, .CS, .SS, .DS]

/-- The name by which assembly text refers to the register. -/
def name : Register → String
  | .AL => "AL" | .CL => "CL" | .DL => "DL" | .BL => "BL"
  | .AH => "AH" | .CH => "CH" | .DH => "DH" | .BH => "BH"
  | .AX => "AX" | .CX => "CX" | .DX => "DX" | .BX => "BX"
  | .SP => "SP" | .BP => "BP" | .SI => "SI" | .DI => "DI"
  | .ES => "ES" | .CS => "CS" | .SS => "SS" | .DS => "DS"

/-- Halves of the general registers are bytes, everything else is a word. -/
def width : Register → Width
  | .AL | .CL | .DL | .BL | .AH | .CH | .DH | .BH => .byte
  | _ => .word

/-- Whether the register holds a segment. -/
def isSegment : Register → Bool
  | .ES | .CS | .SS | .DS => true
  | _ => false

/-- The byte register with the given number. -/
def ofByteNumber (n : Fin 8) : Register :=
  #v[AL, CL, DL, BL, AH, CH, DH, BH][n]

/-- The word register with the given number. -/
def ofWordNumber (n : Fin 8) : Register :=
  #v[AX, CX, DX, BX, SP, BP, SI, DI][n]

end Register

-- =========================================================== segments

/-- The four segments that an address can lie in. -/
inductive Segment where
  | ES | CS | SS | DS
  deriving DecidableEq, Repr, Inhabited

namespace Segment

/-- All segments, in numbering order. -/
def all : List Segment := [.ES, .CS, .SS, .DS]

/-- The register that holds the segment's base. -/
def register : Segment → Register
  | .ES => .ES
  | .CS => .CS
  | .SS => .SS
  | .DS => .DS

/-- A segment is written by the name of its register. -/
def name (s : Segment) : String := s.register.name

/-- The segment with the given number; only the first four numbers name
one. -/
def ofNumber? (n : Fin 8) : Option Segment := all[n.val]?

end Segment

end Disasm8086
